import Mathlib.Algebra.Ring.Nat
import Mathlib.Data.List.DropRight
import Mathlib.Data.List.Forall2

/-!
# The Python a model of Python code rests on

Exceptions, the white space `str.strip` removes, and the two facts about stripping that
validators are read through. A computation that may raise is an `Except Exn`; which kind of
exception it is is kept, the text of an interpreter's own message is not.
-/

namespace Lib

/-- The exceptions Python code of this kind raises itself or lets through. -/
inductive Exn where
  | typeError
  | keyError
  | indexError
  | attributeError
  | valueError
  | recursionError
  | osError
deriving DecidableEq, Repr

/-- `sys.maxsize` of a 64-bit interpreter: no list has more elements. -/
def maxListLength : Nat := 2 ^ 63 - 1

/-! ## What a computation in steps did -/

theorem exists_of_isOk {ε α : Type} {x : Except ε α} (h : x.isOk = true) : ∃ a, x = .ok a := by
  cases x with
  | ok a => exact ⟨a, rfl⟩
  | error e => cases h

theorem bind_eq_ok {ε α β : Type} {x : Except ε α} {f : α → Except ε β} {b : β} :
    x >>= f = .ok b ↔ ∃ a, x = .ok a ∧ f a = .ok b := by
  cases x <;> simp [bind, Except.bind]

theorem bind_eq_error {ε α β : Type} {x : Except ε α} {f : α → Except ε β} {e : ε} :
    x >>= f = .error e ↔ x = .error e ∨ ∃ a, x = .ok a ∧ f a = .error e := by
  cases x <;> simp [bind, Except.bind]

/-- A check that raises, and what runs after it. -/
theorem ite_error_eq_ok {ε α : Type} {c : Prop} [Decidable c] {e : ε} {x : Except ε α} {a : α} :
    (if c then .error e else x) = .ok a ↔ ¬ c ∧ x = .ok a := by
  by_cases h : c <;> simp [h]

/-- A loop that only checks gets to its end when every check passes. -/
theorem forM_eq_ok {ε α : Type} {f : α → Except ε Unit} {xs : List α} :
    xs.forM f = .ok () ↔ ∀ x ∈ xs, f x = .ok () := by
  induction xs with
  | nil => simp only [List.not_mem_nil, false_implies, implies_true, iff_true]; rfl
  | cons x xs ih =>
    rw [List.forall_mem_cons, ← ih]
    refine bind_eq_ok.trans ⟨fun ⟨_, hx, hxs⟩ => ⟨hx, hxs⟩, fun ⟨hx, hxs⟩ => ⟨(), hx, hxs⟩⟩

/-- A list comprehension over a function that may raise has a value for each element, or the
exception of one. -/
theorem mapM_eq_ok {ε α β : Type} {f : α → Except ε β} {xs : List α} {ys : List β} :
    xs.mapM f = .ok ys ↔ List.Forall₂ (fun x y => f x = .ok y) xs ys := by
  induction xs generalizing ys with
  | nil =>
    rw [List.mapM_nil, List.forall₂_nil_left_iff]
    exact ⟨fun h => (Except.ok.inj h).symm, fun h => h ▸ rfl⟩
  | cons x xs ih =>
    rw [List.mapM_cons, bind_eq_ok, List.forall₂_cons_left_iff]
    constructor
    · intro ⟨y, hy, hrest⟩
      obtain ⟨zs, hzs, heq⟩ := bind_eq_ok.mp hrest
      exact ⟨y, zs, hy, ih.mp hzs, (Except.ok.inj heq).symm⟩
    · intro ⟨y, zs, hy, hzs, heq⟩
      refine ⟨y, hy, bind_eq_ok.mpr ⟨zs, ih.mpr hzs, ?_⟩⟩
      rw [heq]
      rfl

/-- A function that raises on no element of a list maps it. -/
theorem mapM_of_forall {ε α β : Type} {f : α → Except ε β} {g : α → β} {xs : List α}
    (h : ∀ x ∈ xs, f x = .ok (g x)) : xs.mapM f = .ok (xs.map g) := by
  apply mapM_eq_ok.mpr
  rw [List.forall₂_map_right_iff]
  exact List.forall₂_same.mpr h

/-- Each element of the second list stands by one of the first. -/
theorem exists_of_mem_forall₂ {α β : Type} {R : α → β → Prop} {xs : List α} {ys : List β}
    (h : List.Forall₂ R xs ys) {y : β} (hy : y ∈ ys) : ∃ x ∈ xs, R x y := by
  induction h with
  | nil => exact absurd hy List.not_mem_nil
  | cons hhead _ ih =>
    rcases List.mem_cons.mp hy with rfl | hy
    · exact ⟨_, List.mem_cons_self, hhead⟩
    · obtain ⟨x, hx, hR⟩ := ih hy
      exact ⟨x, List.mem_cons_of_mem _ hx, hR⟩

/-- A list comprehension has a value exactly when its function has one for each element. -/
theorem mapM_total {ε α β : Type} {f : α → Except ε β} {xs : List α} :
    (∃ ys, xs.mapM f = .ok ys) ↔ ∀ x ∈ xs, ∃ y, f x = .ok y := by
  constructor
  · intro ⟨ys, h⟩ x hx
    obtain ⟨y, _, hy⟩ := exists_of_mem_forall₂ (mapM_eq_ok.mp h).flip hx
    exact ⟨y, hy⟩
  · intro h
    induction xs with
    | nil => exact ⟨[], rfl⟩
    | cons x xs ih =>
      obtain ⟨y, hy⟩ := h x List.mem_cons_self
      obtain ⟨ys, hys⟩ := ih fun z hz => h z (List.mem_cons_of_mem x hz)
      refine ⟨y :: ys, ?_⟩
      rw [List.mapM_cons, hy]
      exact bind_eq_ok.mpr ⟨y, rfl, bind_eq_ok.mpr ⟨ys, hys, rfl⟩⟩

/-- A list that was mapped was mapped by what each element gives. -/
theorem eq_map_of_mapM_eq_ok {ε α β : Type} {f : α → Except ε β} {g : α → β} {xs : List α}
    {ys : List β} (h : xs.mapM f = .ok ys) (hg : ∀ x y, f x = .ok y → y = g x) :
    ys = xs.map g := by
  have hall := mapM_eq_ok.mp h
  induction hall with
  | nil => rfl
  | cons hhead htail ih => rw [List.map_cons, ← hg _ _ hhead, ih (mapM_eq_ok.mpr htail)]

theorem mapM_eq_some {α β : Type} {f : α → Option β} {xs : List α} {ys : List β} :
    xs.mapM f = some ys ↔ List.Forall₂ (fun x y => f x = some y) xs ys := by
  induction xs generalizing ys with
  | nil =>
    rw [List.mapM_nil, List.forall₂_nil_left_iff]
    exact ⟨fun h => (Option.some.inj h).symm, fun h => h ▸ rfl⟩
  | cons x xs ih =>
    rw [List.mapM_cons, Option.bind_eq_bind, Option.bind_eq_some_iff, List.forall₂_cons_left_iff]
    constructor
    · intro ⟨y, hy, hrest⟩
      obtain ⟨zs, hzs, heq⟩ := Option.bind_eq_some_iff.mp hrest
      exact ⟨y, zs, hy, ih.mp hzs, (Option.some.inj heq).symm⟩
    · intro ⟨y, zs, hy, hzs, heq⟩
      refine ⟨y, hy, Option.bind_eq_some_iff.mpr ⟨zs, ih.mpr hzs, ?_⟩⟩
      rw [heq]
      rfl

theorem mapM_some_total {α β : Type} {f : α → Option β} {xs : List α}
    (h : ∀ x ∈ xs, ∃ y, f x = some y) : ∃ ys, xs.mapM f = some ys := by
  induction xs with
  | nil => exact ⟨[], rfl⟩
  | cons x xs ih =>
    obtain ⟨y, hy⟩ := h x List.mem_cons_self
    obtain ⟨ys, hys⟩ := ih fun z hz => h z (List.mem_cons_of_mem x hz)
    exact ⟨y :: ys, mapM_eq_some.mpr (.cons hy (mapM_eq_some.mp hys))⟩

theorem map_eq_map_of_forall₂ {α β γ : Type} {f : α → γ} {g : β → γ} {xs : List α} {ys : List β}
    (h : List.Forall₂ (fun x y => g y = f x) xs ys) : ys.map g = xs.map f := by
  induction h with
  | nil => rfl
  | cons hhead _ ih => rw [List.map_cons, List.map_cons, hhead, ih]

/-! ## Comprehensions with a condition -/

/-- The elements a test that may raise holds of, and the ones it does not hold of. -/
def splitM {α : Type} (test : α → Except Exn Bool) : List α → Except Exn (List α × List α)
  | [] => .ok ([], [])
  | x :: xs => do
    let holds ← test x
    let (ins, outs) ← splitM test xs
    return match holds with
      | true => (x :: ins, outs)
      | false => (ins, x :: outs)

/-- `[x for x in xs if test(x)]`. -/
def filterM {α : Type} (test : α → Except Exn Bool) (xs : List α) : Except Exn (List α) := do
  let (ins, _) ← splitM test xs
  return ins

/-- A test that never raised is a test like any other. -/
theorem splitM_eq_ok {α : Type} {test : α → Except Exn Bool} {xs ins outs : List α}
    (h : splitM test xs = .ok (ins, outs)) :
    ∃ holds : α → Bool, (∀ x ∈ xs, test x = .ok (holds x)) ∧ ins = xs.filter holds ∧
      outs = xs.filter fun x => !holds x := by
  let holds : α → Bool := fun x => match test x with
    | .ok b => b
    | .error _ => false
  refine ⟨holds, ?_⟩
  induction xs generalizing ins outs with
  | nil =>
    obtain ⟨rfl, rfl⟩ := Prod.mk.inj (Except.ok.inj h)
    exact ⟨fun _ hx => absurd hx List.not_mem_nil, rfl, rfl⟩
  | cons x xs ih =>
    obtain ⟨b, hb, h⟩ := bind_eq_ok.mp h
    obtain ⟨⟨ins', outs'⟩, hrest, h⟩ := bind_eq_ok.mp h
    obtain ⟨hall, hins, houts⟩ := ih hrest
    have hx : holds x = b := by
      show (match test x with | .ok b => b | .error _ => false) = b
      rw [hb]
    refine ⟨?_, ?_⟩
    · intro y hy
      rcases List.mem_cons.mp hy with rfl | hy
      · rw [hb, hx]
      · exact hall y hy
    · have heq := Except.ok.inj h
      rw [List.filter_cons, List.filter_cons, hx, ← hins, ← houts]
      cases b with
      | true => exact ⟨(congrArg Prod.fst heq).symm, (congrArg Prod.snd heq).symm⟩
      | false => exact ⟨(congrArg Prod.fst heq).symm, (congrArg Prod.snd heq).symm⟩

/-- A split is complete when its test raises on no element. -/
theorem splitM_total {α : Type} {test : α → Except Exn Bool} {xs : List α}
    (h : ∀ x ∈ xs, ∃ b, test x = .ok b) : ∃ parts, splitM test xs = .ok parts := by
  induction xs with
  | nil => exact ⟨([], []), rfl⟩
  | cons x xs ih =>
    obtain ⟨b, hb⟩ := h x List.mem_cons_self
    obtain ⟨⟨ins, outs⟩, hrest⟩ := ih fun y hy => h y (List.mem_cons_of_mem x hy)
    rw [splitM, hb]
    refine ⟨_, bind_eq_ok.mpr ⟨b, rfl, bind_eq_ok.mpr ⟨(ins, outs), hrest, rfl⟩⟩⟩

theorem filterM_total {α : Type} {test : α → Except Exn Bool} {xs : List α}
    (h : ∀ x ∈ xs, ∃ b, test x = .ok b) : ∃ ys, filterM test xs = .ok ys := by
  obtain ⟨⟨ins, outs⟩, hsplit⟩ := splitM_total h
  exact ⟨ins, bind_eq_ok.mpr ⟨(ins, outs), hsplit, rfl⟩⟩

/-- A comprehension filters by its test. -/
theorem filterM_eq_ok {α : Type} {test : α → Except Exn Bool} {xs ys : List α}
    (h : filterM test xs = .ok ys) :
    ∃ holds : α → Bool, (∀ x ∈ xs, test x = .ok (holds x)) ∧ ys = xs.filter holds := by
  obtain ⟨⟨ins, outs⟩, hsplit, h⟩ := bind_eq_ok.mp h
  obtain ⟨holds, hall, rfl, _⟩ := splitM_eq_ok hsplit
  exact ⟨holds, hall, (Except.ok.inj h).symm⟩

/-- What a comprehension keeps: the elements its test holds of. -/
theorem mem_of_filterM_eq_ok {α : Type} {test : α → Except Exn Bool} {xs ys : List α}
    (h : filterM test xs = .ok ys) {x : α} : x ∈ ys ↔ x ∈ xs ∧ test x = .ok true := by
  obtain ⟨holds, hall, rfl⟩ := filterM_eq_ok h
  rw [List.mem_filter]
  constructor
  · intro ⟨hx, hholds⟩
    exact ⟨hx, (hall x hx).trans (congrArg _ hholds)⟩
  · intro ⟨hx, htest⟩
    rw [hall x hx] at htest
    exact ⟨hx, Except.ok.inj htest⟩

/-- A comprehension keeps nothing when its test holds of no element. -/
theorem filterM_eq_nil {α : Type} {test : α → Except Exn Bool} {xs : List α} :
    filterM test xs = .ok [] ↔ ∀ x ∈ xs, test x = .ok false := by
  constructor
  · intro h x hx
    obtain ⟨holds, hall, hnil⟩ := filterM_eq_ok h
    have hnone := List.filter_eq_nil_iff.mp hnil.symm x hx
    rw [hall x hx, Bool.eq_false_iff.mpr hnone]
  · intro h
    obtain ⟨ys, hys⟩ := filterM_total fun x hx => ⟨false, h x hx⟩
    have hnil : ys = [] := by
      apply List.eq_nil_iff_forall_not_mem.mpr
      intro y hy
      obtain ⟨hmem, htrue⟩ := (mem_of_filterM_eq_ok hys).mp hy
      rw [h y hmem] at htrue
      cases htrue
    rw [hys, hnil]

/-! ## Enumerated loops -/

/-- `for i, x in enumerate(xs): out += body(i, x)`, from a given index on. The first exception
of a body ends the loop. -/
def enumerateM {α β : Type} (body : Nat → β → Except Exn (List α)) :
    Nat → List β → Except Exn (List α)
  | _, [] => .ok []
  | i, x :: xs => do
    let here ← body i x
    let rest ← enumerateM body (i + 1) xs
    return here ++ rest

/-- A loop whose body never raises collects the bodies' results in order. -/
theorem enumerateM_ok {α β γ : Type} {body : Nat → β → Except Exn (List α)} {g : γ → β}
    {result : Nat → γ → List α} (xs : List γ) (i : Nat)
    (h : ∀ j, ∀ x ∈ xs, body j (g x) = .ok (result j x)) :
    enumerateM body i (xs.map g) = .ok ((xs.zipIdx i).flatMap fun e => result e.2 e.1) := by
  induction xs generalizing i with
  | nil => rfl
  | cons x xs ih =>
    have hx := h i x List.mem_cons_self
    have hxs := ih (i + 1) fun j y hy => h j y (List.mem_cons_of_mem x hy)
    simp only [List.map_cons, enumerateM, hx, hxs, List.zipIdx_cons, List.flatMap_cons]
    rfl

/-- What was found before a loop does not change whether the loop raises. -/
theorem prefixed_raises {α : Type} {own : List α} {nested : Except Exn (List α)} :
    (∃ e, (do let found ← nested; return own ++ found) = .error e) ↔ ∃ e, nested = .error e := by
  cases nested <;> simp [bind, Except.bind, pure, Except.pure]

/-- Nothing is found in all when nothing is found before the loop and nothing in it. -/
theorem prefixed_eq_nil {α : Type} {own : List α} {nested : Except Exn (List α)} :
    (do let found ← nested; return own ++ found) = .ok [] ↔ own = [] ∧ nested = .ok [] := by
  cases nested <;> simp [bind, Except.bind, pure, Except.pure]

/-- A loop that raises has a body that raised, and one body that raises is enough. -/
theorem enumerateM_raises {α β : Type} {body : Nat → β → Except Exn (List α)}
    {raises : β → Prop} (xs : List β) (i : Nat)
    (h : ∀ j, ∀ x ∈ xs, (∃ e, body j x = .error e) ↔ raises x) :
    (∃ e, enumerateM body i xs = .error e) ↔ ∃ x ∈ xs, raises x := by
  induction xs generalizing i with
  | nil => simp [enumerateM]
  | cons x xs ih =>
    have hx := h i x List.mem_cons_self
    have hxs := ih (i + 1) fun j y hy => h j y (List.mem_cons_of_mem x hy)
    rw [List.exists_mem_cons_iff, ← hx, ← hxs, enumerateM]
    cases body i x with
    | error e => simp [bind, Except.bind]
    | ok here =>
      exact (prefixed_raises.trans (by simp))

/-- A loop finds nothing when, and only when, no turn of it does. -/
theorem enumerateM_eq_nil {α β : Type} {body : Nat → β → Except Exn (List α)}
    {clean : β → Prop} (xs : List β) (i : Nat)
    (h : ∀ j, ∀ x ∈ xs, body j x = .ok [] ↔ clean x) :
    enumerateM body i xs = .ok [] ↔ ∀ x ∈ xs, clean x := by
  induction xs generalizing i with
  | nil => simp [enumerateM]
  | cons x xs ih =>
    have hx := h i x List.mem_cons_self
    have hxs := ih (i + 1) fun j y hy => h j y (List.mem_cons_of_mem x hy)
    rw [List.forall_mem_cons, ← hx, ← hxs, enumerateM]
    cases body i x with
    | error e => simp [bind, Except.bind]
    | ok here =>
      exact prefixed_eq_nil.trans (by simp)

/-! ## Joined texts -/

/-- A character of a joined text is the separator, or in a part. -/
theorem mem_intercalate {sep c : Char} {parts : List (List Char)}
    (h : c ∈ [sep].intercalate parts) : c = sep ∨ ∃ w ∈ parts, c ∈ w := by
  induction parts with
  | nil => cases h
  | cons w parts ih =>
    by_cases hne : parts = []
    · rw [hne, List.intercalate_singleton] at h
      exact .inr ⟨w, List.mem_cons_self, h⟩
    · rw [List.intercalate_cons_of_ne_nil hne] at h
      rcases List.mem_append.mp h with h | h
      · rcases List.mem_append.mp h with h | h
        · exact .inr ⟨w, List.mem_cons_self, h⟩
        · exact .inl (List.mem_singleton.mp h)
      · rcases ih h with hc | ⟨v, hv, hc⟩
        · exact .inl hc
        · exact .inr ⟨v, List.mem_cons_of_mem w hv, hc⟩

/-! ## White space -/

/-- The characters `str.strip()` removes: `str.isspace`, which is Unicode's white space and the
four information separators U+001C to U+001F. -/
def isPySpace (c : Char) : Bool :=
  let n := c.toNat
  (0x09 ≤ n && n ≤ 0x0D) || (0x1C ≤ n && n ≤ 0x20) || n == 0x85 || n == 0xA0 || n == 0x1680 ||
    (0x2000 ≤ n && n ≤ 0x200A) || n == 0x2028 || n == 0x2029 || n == 0x202F || n == 0x205F ||
    n == 0x3000

/-- A list of characters without the ones `space` holds of at either end. -/
def stripChars (space : Char → Bool) (cs : List Char) : List Char :=
  (cs.dropWhile space).rdropWhile space

/-- `str.strip()`. -/
def pyStrip (s : String) : String := String.ofList (stripChars isPySpace s.toList)

/-- Nothing is left of a string exactly when every character of it is stripped. -/
theorem stripChars_eq_nil {space : Char → Bool} {cs : List Char} :
    stripChars space cs = [] ↔ ∀ c ∈ cs, space c = true := by
  unfold stripChars
  rw [List.rdropWhile_eq_nil_iff]
  constructor
  · intro h
    by_contra hne
    have hd : cs.dropWhile space ≠ [] := fun he => hne (List.dropWhile_eq_nil_iff.mp he)
    have hhead := List.head_dropWhile_not space hd
    rw [h _ (List.head_mem hd)] at hhead
    exact Bool.noConfusion hhead
  · intro h c hc
    exact h c (List.dropWhile_sublist space |>.subset hc)

/-- A text without such characters is left as it is. -/
theorem stripChars_eq_self {space : Char → Bool} {cs : List Char}
    (h : ∀ c ∈ cs, space c = false) : stripChars space cs = cs := by
  have hfront : cs.dropWhile space = cs := by
    cases cs with
    | nil => rfl
    | cons c cs => exact List.dropWhile_cons_of_neg (by simp [h c List.mem_cons_self])
  rw [stripChars, hfront, List.rdropWhile_eq_self_iff]
  intro hne
  simp [h _ (List.getLast_mem hne)]

theorem not_space_of_all {cs : List Char} (h : (cs.all fun c => !isPySpace c) = true) :
    ∀ c ∈ cs, isPySpace c = false := by
  simpa using List.all_eq_true.mp h

/-- A string is blank to Python when stripping leaves nothing. -/
def pyBlank (s : String) : Bool := pyStrip s == ""

theorem pyBlank_iff {s : String} : pyBlank s = true ↔ ∀ c ∈ s.toList, isPySpace c = true := by
  have h : pyStrip s = "" ↔ stripChars isPySpace s.toList = [] := by
    rw [← String.toList_inj, pyStrip, String.toList_ofList]
    rfl
  rw [pyBlank, beq_iff_eq, h, stripChars_eq_nil]

end Lib
