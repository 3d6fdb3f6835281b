import MissionCompiler.Render.Admission

/-!
# Resource quantities

The grammar a resource request is held to, and the check of it: `_require_quantity` strips a
text, matches the whole of it and refuses a sign that makes it negative. Digits may be left out
on one side of the dot only, and an `E` is a suffix or begins an exponent; which of the readings
the matcher tries first does not matter, since every text the pattern matches is put together as
the grammar says.
-/

namespace MissionCompiler.Render

open Lib Names Schema Compile RegularExpression

/-! ## The grammar -/

structure Digits (text : List Char) : Prop where
  ne_nil : text ≠ []
  digit : ∀ c ∈ text, c.isDigit = true

/-- Digits, with a dot and more digits or without; digits may be missing on one side of it. -/
inductive Magnitude : List Char → Prop where
  | whole {digits : List Char} (h : Digits digits) : Magnitude digits
  | trailingDot {digits : List Char} (h : Digits digits) : Magnitude (digits ++ ['.'])
  | fraction {digits more : List Char} (h : Digits digits) (hmore : Digits more) :
      Magnitude (digits ++ '.' :: more)
  | leadingDot {digits : List Char} (h : Digits digits) : Magnitude ('.' :: digits)

def binarySuffixes : List String := ["Ki", "Mi", "Gi", "Ti", "Pi", "Ei"]

def decimalSuffixes : List Char := ['m', 'u', 'n', 'k', 'M', 'G', 'T', 'P', 'E']

/-- Nothing, a binary or decimal suffix, or an exponent of up to four digits. -/
inductive Suffix : List Char → Prop where
  | none : Suffix []
  | binary {word : String} (h : word ∈ binarySuffixes) : Suffix word.toList
  | decimal {c : Char} (h : c ∈ decimalSuffixes) : Suffix [c]
  | exponent {e : Char} {sign digits : List Char} (letter : e = 'e' ∨ e = 'E')
      (signed : sign = [] ∨ sign = ['+'] ∨ sign = ['-']) (h : Digits digits)
      (length_le : digits.length ≤ 4) : Suffix (e :: (sign ++ digits))

/-- A number that may have a plus before it, and a suffix. -/
inductive Quantity : List Char → Prop where
  | mk {plus number suffix : List Char} (signed : plus = [] ∨ plus = ['+'])
      (hnumber : Magnitude number) (hsuffix : Suffix suffix) :
      Quantity (plus ++ number ++ suffix)

/-! ## The pattern -/

theorem mem_digitChars (c : Char) : c ∈ "0123456789".toList ↔ c.isDigit = true := by
  constructor
  · have hall : "0123456789".toList.all Char.isDigit = true := by decide
    exact fun hc => List.all_eq_true.mp hall c hc
  · intro hc
    have hall : ∀ n < 128, (Char.ofNat n).isDigit = true →
        Char.ofNat n ∈ "0123456789".toList := by decide +kernel
    refine of_ascii (P := fun c => c.isDigit = true → c ∈ "0123456789".toList) hall ?_ hc
    have hle : c.toNat ≤ 57 := (Char.isDigit_iff_toNat.mp hc).2
    omega

theorem mem_digits_star {text : List Char} :
    text ∈ (star digits).matches' ↔ text = [] ∨ Digits text := by
  rw [digits, mem_star_charClass]
  simp only [mem_digitChars]
  constructor
  · intro h
    by_cases hnil : text = []
    · exact .inl hnil
    · exact .inr ⟨hnil, h⟩
  · rintro (rfl | h)
    · exact fun c hc => absurd hc List.not_mem_nil
    · exact h.digit

theorem mem_digits_plus {text : List Char} :
    text ∈ (digits * star digits).matches' ↔ Digits text := by
  rw [digits, mem_plus_charClass]
  simp only [mem_digitChars]
  exact ⟨fun ⟨hne, h⟩ => ⟨hne, h⟩, fun h => ⟨h.ne_nil, h.digit⟩⟩

theorem mem_digits_upToFour {text : List Char} :
    text ∈ (digits * optional digits * optional digits * optional digits).matches' ↔
      Digits text ∧ text.length ≤ 4 := by
  have hfour : text ∈ (digits * optional digits * optional digits * optional digits).matches' ↔
      UpTo "0123456789" 4 text := by
    refine upTo_succ (by decide) fun _ => upTo_succ (by decide) fun _ => ?_
    exact upTo_succ (Nat.le_refl 1) fun _ => upTo_one
  rw [hfour]
  constructor
  · exact fun h => ⟨⟨h.ne_nil, fun c hc => (mem_digitChars c).mp (h.legal c hc)⟩, h.length_le⟩
  · exact fun ⟨h, hlen⟩ => ⟨h.ne_nil, fun c hc => (mem_digitChars c).mpr (h.digit c hc), hlen⟩

theorem mem_numberRe {text : List Char} : text ∈ numberRe.matches' ↔ Magnitude text := by
  rw [numberRe, mem_alt]
  constructor
  · rintro (h | h)
    · obtain ⟨front, rest, rfl, hfront, hrest⟩ := mem_mul.mp h
      rw [mem_digits_plus] at hfront
      rcases mem_optional.mp hrest with rfl | hrest
      · rw [List.append_nil]
        exact .whole hfront
      · obtain ⟨dot, more, rfl, hdot, hmore⟩ := mem_mul.mp hrest
        rw [mem_char.mp hdot]
        rcases mem_digits_star.mp hmore with rfl | hmore
        · exact .trailingDot hfront
        · exact .fraction hfront hmore
    · obtain ⟨dot, more, rfl, hdot, hmore⟩ := mem_mul.mp h
      rw [mem_char.mp hdot]
      exact .leadingDot (mem_digits_plus.mp hmore)
  · have hdot : ['.'] ∈ (char '.').matches' := mem_char.mpr rfl
    intro h
    cases h with
    | whole h =>
      refine .inl (mem_mul.mpr ⟨text, [], (List.append_nil text).symm, ?_, ?_⟩)
      · exact mem_digits_plus.mpr h
      · exact mem_optional.mpr (.inl rfl)
    | trailingDot h =>
      refine .inl (mem_mul.mpr ⟨_, _, rfl, mem_digits_plus.mpr h, mem_optional.mpr (.inr ?_)⟩)
      exact mem_mul.mpr ⟨['.'], [], rfl, hdot, mem_digits_star.mpr (.inl rfl)⟩
    | fraction h hmore =>
      refine .inl (mem_mul.mpr ⟨_, _, rfl, mem_digits_plus.mpr h, mem_optional.mpr (.inr ?_)⟩)
      exact mem_mul.mpr ⟨['.'], _, rfl, hdot, mem_digits_star.mpr (.inr hmore)⟩
    | leadingDot h => exact .inr (mem_mul.mpr ⟨['.'], _, rfl, hdot, mem_digits_plus.mpr h⟩)

theorem mem_sign {text : List Char} : text ∈ (optional (charClass "+-")).matches' ↔
    text = [] ∨ text = ['+'] ∨ text = ['-'] := by
  rw [mem_optional, mem_charClass]
  have hsigns : "+-".toList = ['+', '-'] := rfl
  simp [hsigns]

theorem mem_suffixRe {text : List Char} : text ∈ suffixRe.matches' ↔ Suffix text := by
  rw [suffixRe, mem_optional, mem_alt, mem_alt, mem_oneOf, mem_charClass]
  constructor
  · rintro (rfl | (⟨word, hword, rfl⟩ | ⟨c, hc, rfl⟩) | h)
    · exact .none
    · exact .binary hword
    · exact .decimal hc
    · obtain ⟨front, digits, rfl, hfront, hdigits⟩ := mem_mul.mp h
      obtain ⟨letter, sign, rfl, hletter, hsign⟩ := mem_mul.mp hfront
      obtain ⟨e, he, rfl⟩ := mem_charClass.mp hletter
      rw [mem_digits_upToFour] at hdigits
      exact .exponent (List.mem_pair.mp he) (mem_sign.mp hsign) hdigits.1 hdigits.2
  · intro h
    cases h with
    | none => exact .inl rfl
    | binary h => exact .inr (.inl (.inl ⟨_, h, rfl⟩))
    | decimal h => exact .inr (.inl (.inr ⟨_, h, rfl⟩))
    | @exponent e sign digits letter signed h length_le =>
      refine .inr (.inr (mem_mul.mpr ⟨e :: sign, digits, rfl, ?_, ?_⟩))
      · have hletter : [e] ∈ (charClass "eE").matches' :=
          mem_charClass.mpr ⟨e, List.mem_pair.mpr letter, rfl⟩
        exact mem_mul.mpr ⟨[e], sign, rfl, hletter, mem_sign.mpr signed⟩
      · exact mem_digits_upToFour.mpr ⟨h, length_le⟩

/-- The pattern takes a minus as well. -/
theorem mem_quantityRe {text : List Char} : text ∈ quantityRe.matches' ↔
    ∃ sign number suffix, text = sign ++ number ++ suffix ∧
      (sign = [] ∨ sign = ['+'] ∨ sign = ['-']) ∧ Magnitude number ∧ Suffix suffix := by
  rw [quantityRe, mem_mul]
  constructor
  · rintro ⟨front, suffix, rfl, hfront, hsuffix⟩
    obtain ⟨sign, number, rfl, hsign, hnumber⟩ := mem_mul.mp hfront
    exact ⟨sign, number, suffix, rfl, mem_sign.mp hsign, mem_numberRe.mp hnumber,
      mem_suffixRe.mp hsuffix⟩
  · rintro ⟨sign, number, suffix, rfl, hsign, hnumber, hsuffix⟩
    refine ⟨sign ++ number, suffix, rfl, ?_, mem_suffixRe.mpr hsuffix⟩
    exact mem_mul.mpr ⟨sign, number, rfl, mem_sign.mpr hsign, mem_numberRe.mpr hnumber⟩

/-! ## Signs and spaces -/

/-- A number begins with a digit or the dot. -/
theorem Magnitude.first {text : List Char} (h : Magnitude text) :
    ∃ c rest, text = c :: rest ∧ (c.isDigit = true ∨ c = '.') := by
  have hdigits : ∀ {digits : List Char}, Digits digits →
      ∃ c rest, digits = c :: rest ∧ c.isDigit = true := by
    intro digits hd
    obtain ⟨c, rest, rfl⟩ := List.exists_cons_of_ne_nil hd.ne_nil
    exact ⟨c, rest, rfl, hd.digit c List.mem_cons_self⟩
  cases h with
  | whole hd =>
    obtain ⟨c, rest, rfl, hc⟩ := hdigits hd
    exact ⟨c, rest, rfl, .inl hc⟩
  | trailingDot hd =>
    obtain ⟨c, rest, rfl, hc⟩ := hdigits hd
    exact ⟨c, _, rfl, .inl hc⟩
  | fraction hd =>
    obtain ⟨c, rest, rfl, hc⟩ := hdigits hd
    exact ⟨c, _, rfl, .inl hc⟩
  | leadingDot => exact ⟨'.', _, rfl, .inr rfl⟩

/-- A quantity is what the pattern matches without a minus. -/
theorem quantity_iff {text : List Char} :
    Quantity text ↔ text ∈ quantityRe.matches' ∧ ¬ ['-'] <+: text := by
  rw [mem_quantityRe]
  constructor
  · rintro ⟨signed, hnumber, hsuffix⟩
    refine ⟨⟨_, _, _, rfl, signed.imp_right .inl, hnumber, hsuffix⟩, ?_⟩
    obtain ⟨c, rest, rfl, hc⟩ := hnumber.first
    rintro ⟨tail, htail⟩
    rcases signed with rfl | rfl
    · cases htail
      rcases hc with hc | hc
      · exact absurd hc (by decide)
      · exact absurd hc (by decide)
    · cases htail
  · rintro ⟨⟨sign, number, suffix, rfl, hsign, hnumber, hsuffix⟩, hminus⟩
    rcases hsign with rfl | rfl | rfl
    · exact .mk (.inl rfl) hnumber hsuffix
    · exact .mk (.inr rfl) hnumber hsuffix
    · exact absurd ⟨number ++ suffix, rfl⟩ hminus

theorem Digits.not_space {text : List Char} (h : Digits text) :
    ∀ c ∈ text, isPySpace c = false := by
  intro c hc
  have hall : ("0123456789".toList.all fun c => !isPySpace c) = true := by decide
  exact not_space_of_all hall c ((mem_digitChars c).mpr (h.digit c hc))

theorem Magnitude.not_space {text : List Char} (h : Magnitude text) :
    ∀ c ∈ text, isPySpace c = false := by
  have hdot : isPySpace '.' = false := by decide
  cases h with
  | whole hd => exact hd.not_space
  | trailingDot hd =>
    rw [List.forall_mem_append, List.forall_mem_singleton]
    exact ⟨hd.not_space, hdot⟩
  | fraction hd hmore =>
    rw [List.forall_mem_append, List.forall_mem_cons]
    exact ⟨hd.not_space, hdot, hmore.not_space⟩
  | leadingDot hd =>
    rw [List.forall_mem_cons]
    exact ⟨hdot, hd.not_space⟩

theorem Suffix.not_space {text : List Char} (h : Suffix text) :
    ∀ c ∈ text, isPySpace c = false := by
  cases h with
  | none => exact fun c hc => absurd hc List.not_mem_nil
  | binary h =>
    have hall : (binarySuffixes.all fun word => word.toList.all fun c => !isPySpace c) = true := by
      decide
    exact not_space_of_all (List.all_eq_true.mp hall _ h)
  | decimal h =>
    rw [List.forall_mem_singleton]
    exact not_space_of_all (by decide) _ h
  | exponent letter signed h =>
    rw [List.forall_mem_cons, List.forall_mem_append]
    refine ⟨?_, ?_, h.not_space⟩
    · rcases letter with rfl | rfl <;> decide
    · rcases signed with rfl | rfl | rfl <;> exact not_space_of_all (by decide)

theorem Quantity.not_space {text : List Char} (h : Quantity text) :
    ∀ c ∈ text, isPySpace c = false := by
  obtain ⟨signed, hnumber, hsuffix⟩ := h
  rw [List.forall_mem_append, List.forall_mem_append]
  refine ⟨⟨?_, hnumber.not_space⟩, hsuffix.not_space⟩
  rcases signed with rfl | rfl <;> exact not_space_of_all (by decide)

theorem Quantity.ne_nil {text : List Char} (h : Quantity text) : text ≠ [] := by
  obtain ⟨_, hnumber, _⟩ := h
  obtain ⟨c, rest, rfl, _⟩ := hnumber.first
  simp

/-! ## The check -/

/-- `_require_quantity` accepts the texts that are a quantity when they are stripped. -/
theorem requireQuantity_eq_ok {value text : String} :
    requireQuantity value = .ok text ↔ text = pyStrip value ∧ Quantity text.toList := by
  have hempty : (pyStrip value).isEmpty = true ↔ (pyStrip value).toList = [] := by simp
  have hcheck : ¬ ((pyStrip value).isEmpty ||
        !fullmatch quantityRe (pyStrip value).toList) = true ∧
        ¬ (pyStrip value).startsWith "-" = true ↔ Quantity (pyStrip value).toList := by
    rw [String.startsWith_string_iff, Bool.or_eq_true, hempty, Bool.not_eq_true', not_or,
      Bool.not_eq_false, fullmatch_iff]
    refine Iff.trans ?_ (quantity_iff.symm)
    constructor
    · exact fun ⟨⟨_, hmatch⟩, hminus⟩ => ⟨hmatch, hminus⟩
    · exact fun h => ⟨⟨(quantity_iff.mpr h).ne_nil, h.1⟩, h.2⟩
  unfold requireQuantity
  rw [ite_error_eq_ok, ite_error_eq_ok, ← and_assoc, hcheck, Except.ok.injEq]
  constructor
  · rintro ⟨h, rfl⟩
    exact ⟨rfl, h⟩
  · rintro ⟨rfl, h⟩
    exact ⟨h, rfl⟩

/-- A quantity is its own stripped form. -/
theorem pyStrip_quantity {text : String} (h : Quantity text.toList) : pyStrip text = text := by
  rw [pyStrip, stripChars_eq_self h.not_space, String.ofList_toList]

/-- Every other text is refused. -/
theorem requireQuantity_error {value : String} (h : ¬ Quantity (pyStrip value).toList) :
    requireQuantity value = .error .valueError := by
  cases hresult : requireQuantity value with
  | ok text =>
    obtain ⟨rfl, hquantity⟩ := requireQuantity_eq_ok.mp hresult
    exact absurd hquantity h
  | error e =>
    unfold requireQuantity at hresult
    dsimp only at hresult
    split_ifs at hresult <;> exact hresult.symm

/-- A negative number is no quantity. -/
theorem not_quantity_minus (text : List Char) : ¬ Quantity ('-' :: text) := fun h =>
  (quantity_iff.mp h).2 ⟨text, rfl⟩

/-! ## What a job asks for -/

/-- The one container of a job asks for a processor and memory share. -/
structure Requests (job : Json) (cpu memory : String) : Prop where
  requests : ∃ container, podContainers (jobPod job) = [container] ∧
    ((container.field "resources").field "requests").get? "cpu" = some (.str cpu) ∧
    ((container.field "resources").field "requests").get? "memory" = some (.str memory)

theorem containerResources_requests (resourceClass : ResourceClass) (draEnabled : Bool)
    (cpu memory : String) :
    ((containerResources resourceClass draEnabled cpu memory).field "requests").get? "cpu" =
        some (.str cpu) ∧
      ((containerResources resourceClass draEnabled cpu memory).field "requests").get? "memory" =
        some (.str memory) := by
  cases resourceClass <;> cases draEnabled <;> exact ⟨rfl, rfl⟩

/-- A job has the requests it was asked for, as they were checked. -/
theorem renderKueueJob_requests (host : Host) {intent : WorkflowIntent} {options : KueueOptions}
    {cpuRequest memoryRequest : String} {draEnabled : Bool} {job : Json}
    (h : renderKueueJob host intent options cpuRequest memoryRequest draEnabled = .ok job) :
    ∃ cpu memory, requireQuantity cpuRequest = .ok cpu ∧
      requireQuantity memoryRequest = .ok memory ∧ Requests job cpu memory := by
  unfold renderKueueJob at h
  obtain ⟨cpu, hcpu, h⟩ := bind_eq_ok.mp h
  obtain ⟨memory, hmemory, h⟩ := bind_eq_ok.mp h
  obtain ⟨ns, _, h⟩ := bind_eq_ok.mp h
  obtain ⟨queue, _, h⟩ := bind_eq_ok.mp h
  obtain ⟨⟨primary, position⟩, _, h⟩ := bind_eq_ok.mp h
  obtain ⟨rctName, _, h⟩ := bind_eq_ok.mp h
  obtain ⟨orchidePriority, _, h⟩ := bind_eq_ok.mp h
  obtain ⟨annotations, _, h⟩ := bind_eq_ok.mp h
  obtain ⟨classLabels, _, h⟩ := bind_eq_ok.mp h
  refine ⟨cpu, memory, hcpu, hmemory, ?_⟩
  have hpod : jobPod job = podSpec primary draEnabled cpu memory rctName := by
    rw [← Except.ok.inj h]
    rfl
  obtain ⟨container, hcontainers, hresources⟩ :=
    podContainers_podSpec primary draEnabled cpu memory rctName
  refine ⟨container, hpod ▸ hcontainers, ?_⟩
  rw [hresources, pyStrip_quantity (requireQuantity_eq_ok.mp hcpu).2,
    pyStrip_quantity (requireQuantity_eq_ok.mp hmemory).2]
  exact containerResources_requests primary.resourceClass draEnabled cpu memory

/-- The check of a quantity accepts the grammar, returns the stripped text and leaves what it
returned as it is; everything else is refused, every negative number too. A job is rendered with
the texts it returned. -/
theorem quantity_check_exact (host : Host) :
    (∀ value text, requireQuantity value = .ok text ↔
      text = pyStrip value ∧ Quantity text.toList) ∧
    (∀ value, ¬ Quantity (pyStrip value).toList →
      requireQuantity value = .error .valueError) ∧
    (∀ value text, (pyStrip value).toList = '-' :: text →
      requireQuantity value = .error .valueError) ∧
    (∀ value text, requireQuantity value = .ok text → requireQuantity text = .ok text) ∧
    ∀ intent options cpuRequest memoryRequest draEnabled job,
      renderKueueJob host intent options cpuRequest memoryRequest draEnabled = .ok job →
      ∃ cpu memory, requireQuantity cpuRequest = .ok cpu ∧
        requireQuantity memoryRequest = .ok memory ∧ Requests job cpu memory := by
  refine ⟨fun _ _ => requireQuantity_eq_ok, fun _ h => requireQuantity_error h, ?_, ?_, ?_⟩
  · intro value text htext
    exact requireQuantity_error (htext ▸ not_quantity_minus text)
  · intro value text h
    have hquantity := (requireQuantity_eq_ok.mp h).2
    exact requireQuantity_eq_ok.mpr ⟨(pyStrip_quantity hquantity).symm, hquantity⟩
  · exact fun _ _ _ _ _ _ h => renderKueueJob_requests host h

/-- An exponent, a minus and a job without dynamic resource allocation. -/
theorem quantity_check_exact_sample :
    Quantity "+.5e3".toList ∧ requireQuantity "+.5e3" = .ok "+.5e3" ∧
      requireQuantity " -1Ki" = .error .valueError ∧
      requireQuantity "1K" = .error .valueError ∧
      ∃ job, renderKueueJob sampleHost sampleIntent sampleKueueOptions " +.5e3\n" "256Mi" false =
        .ok job ∧ Requests job "+.5e3" "256Mi" := by
  obtain ⟨hok, hraises, hnegative, hfixed, hjob⟩ := quantity_check_exact sampleHost
  have hcpu : requireQuantity " +.5e3\n" = .ok "+.5e3" := by decide +kernel
  have hmemory : requireQuantity "256Mi" = .ok "256Mi" := by decide +kernel
  refine ⟨((hok _ _).mp hcpu).2, hfixed _ _ hcpu, ?_, ?_, ?_⟩
  · exact hnegative " -1Ki" "1Ki".toList (by decide)
  · refine hraises "1K" fun h => ?_
    have hrefused : requireQuantity "1K" = .error .valueError := by decide +kernel
    rw [(hok "1K" _).mpr ⟨rfl, h⟩] at hrefused
    cases hrefused
  · have hrendered : (renderKueueJob sampleHost sampleIntent sampleKueueOptions " +.5e3\n" "256Mi"
        false).isOk = true := by decide +kernel
    obtain ⟨job, hrender⟩ := exists_of_isOk hrendered
    obtain ⟨cpu, memory, hc, hm, hrequests⟩ := hjob _ _ _ _ _ _ hrender
    rw [hcpu] at hc
    rw [hmemory] at hm
    cases hc
    cases hm
    exact ⟨job, hrender, hrequests⟩

end MissionCompiler.Render
