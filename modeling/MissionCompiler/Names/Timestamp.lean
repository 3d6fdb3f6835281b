import MissionCompiler.Lib.Decimal
import MissionCompiler.Names.Sanitize
import MissionCompiler.Schema.Plan

/-!
# Timestamps in names

`_to_rfc3339_z`, and what a timestamp leaves at the end of a name. Every field of
`datetime.isoformat` has a fixed width, so the last words of a name say in which of four ways
the timestamp was written: the word of a `Z`, or the two words of an offset after the seconds
or after the microseconds (`eventTail_wordsOf`).
-/

namespace MissionCompiler.Names

open Lib Schema

/-! ## The code -/

/-- The offset at the end of `isoformat`, a sign and two fields. -/
def isoOffset (ts : Timestamp) : List Char :=
  (if ts.offsetMinutes < 0 then '-' else '+') :: padded 2 (ts.offsetMinutes.natAbs / 60) ++
    ':' :: padded 2 (ts.offsetMinutes.natAbs % 60)

/-- The seconds of `isoformat`, with microseconds when there are any. -/
def isoSeconds (ts : Timestamp) : List Char :=
  padded 2 ts.second ++ if ts.microsecond = 0 then [] else '.' :: padded 6 ts.microsecond

/-- Everything in `isoformat` before the offset. -/
def isoLocal (ts : Timestamp) : List Char :=
  padded 4 ts.year ++ '-' :: padded 2 ts.month ++ '-' :: padded 2 ts.day ++ 'T' ::
    padded 2 ts.hour ++ ':' :: padded 2 ts.minute ++ ':' :: isoSeconds ts

/-- `datetime.isoformat()` of an aware datetime. -/
def isoformat (ts : Timestamp) : List Char := isoLocal ts ++ isoOffset ts

/-- `_to_rfc3339_z`. -/
def toRfc3339Z (ts : Timestamp) : String :=
  let text := isoformat ts
  if "+00:00".toList.isSuffixOf text then String.ofList (text.take (text.length - 6) ++ ['Z'])
  else String.ofList text

example : toRfc3339Z ⟨2026, 3, 1, 9, 5, 0, 250000, 0, by decide, by decide, by decide, by decide,
    by decide, by decide, by decide, by decide, by decide, by decide, by decide, by decide⟩ =
    "2026-03-01T09:05:00.250000Z" := by decide

/-! ## Fields -/

theorem isAlnum_of_isDigit {c : Char} (h : IsDigit c) : isAlnum c = true := by
  rw [isAlnum_iff]
  exact .inr h

theorem legalize_padded (width n : Nat) : legalize (padded width n) = padded width n :=
  legalize_of_legal fun _ hc => .inl (isAlnum_of_isDigit (isDigit_of_mem_padded hc))

theorem isWord_padded {width n : Nat} : IsWord (padded width n) := by
  refine ⟨fun h => ?_, fun h => ?_⟩
  · exact Nat.toDigits_ne_nil (List.append_eq_nil_iff.mp h).2
  · have hd := isDigit_of_mem_padded h
    revert hd
    decide

theorem words_padded (width n : Nat) : words (padded width n) = [padded width n] :=
  words_eq_singleton isWord_padded

theorem legalize_cons (c : Char) (cs : List Char) :
    legalize (c :: cs) = legalize [c] ++ legalize cs := legalize_append [c] cs

/-- The words of a field and what follows a dash. -/
theorem words_padded_dash (width n : Nat) (cs : List Char) :
    words (padded width n ++ '-' :: cs) = padded width n :: words cs := by
  rw [words_append_dash, words_padded]
  rfl

/-- A separator of `isoformat` is a dash in a name. -/
theorem legalize_field (width n : Nat) {c : Char} (hc : legalize [c] = ['-']) (cs : List Char) :
    legalize (padded width n ++ c :: cs) = padded width n ++ '-' :: legalize cs := by
  rw [legalize_append, legalize_padded, legalize_cons, hc]
  rfl

/-! ## The words of a timestamp -/

/-- The day and the hour are one word: the `T` between them is a letter. -/
def dayHour (ts : Timestamp) : List Char := padded 2 ts.day ++ 't' :: padded 2 ts.hour

theorem isWord_dayHour (ts : Timestamp) : IsWord (dayHour ts) := by
  refine ⟨by simp [dayHour], fun h => ?_⟩
  rcases List.mem_append.mp h with h | h
  · exact isWord_padded.2 h
  · rcases List.mem_cons.mp h with h | h
    · exact absurd h (by decide)
    · exact isWord_padded.2 h

theorem words_isoLocal (ts : Timestamp) (rest : List Char) :
    words (legalize (isoLocal ts ++ rest)) =
      [padded 4 ts.year, padded 2 ts.month, dayHour ts, padded 2 ts.minute] ++
        words (legalize (isoSeconds ts ++ rest)) := by
  have hday : legalize (padded 2 ts.day ++ 'T' :: (padded 2 ts.hour ++ ':' ::
      (padded 2 ts.minute ++ ':' :: (isoSeconds ts ++ rest)))) =
      dayHour ts ++ '-' :: (padded 2 ts.minute ++ '-' :: legalize (isoSeconds ts ++ rest)) := by
    rw [legalize_append, legalize_padded, legalize_cons, legalize_field 2 _ (by decide),
      legalize_field 2 _ (by decide), dayHour, List.append_assoc]
    rfl
  have hlocal : isoLocal ts ++ rest = padded 4 ts.year ++ '-' :: (padded 2 ts.month ++ '-' ::
      (padded 2 ts.day ++ 'T' :: (padded 2 ts.hour ++ ':' ::
        (padded 2 ts.minute ++ ':' :: (isoSeconds ts ++ rest))))) := by
    simp only [isoLocal, List.append_assoc, List.cons_append]
  rw [hlocal, legalize_field 4 _ (by decide), legalize_field 2 _ (by decide), hday,
    words_padded_dash, words_padded_dash, words_append_dash, words_eq_singleton (isWord_dayHour ts),
    words_padded_dash]
  rfl

/-- The words of the seconds, with the microseconds for a word of their own. -/
theorem words_isoSeconds (ts : Timestamp) (rest : List Char) :
    words (legalize (isoSeconds ts ++ rest)) =
      if ts.microsecond = 0 then words (padded 2 ts.second ++ legalize rest)
      else padded 2 ts.second :: words (padded 6 ts.microsecond ++ legalize rest) := by
  unfold isoSeconds
  split
  · rw [List.append_nil, legalize_append, legalize_padded]
  · rw [List.append_assoc, List.cons_append, legalize_field 2 _ (by decide), words_padded_dash,
      legalize_append, legalize_padded]

theorem legalize_isoOffset (ts : Timestamp) : legalize (isoOffset ts) =
    '-' :: (padded 2 (ts.offsetMinutes.natAbs / 60) ++
      '-' :: padded 2 (ts.offsetMinutes.natAbs % 60)) := by
  have hsign : legalize [if ts.offsetMinutes < 0 then '-' else '+'] = ['-'] := by
    split <;> decide
  rw [isoOffset, List.cons_append, legalize_cons, hsign, legalize_field 2 _ (by decide),
    legalize_padded]
  rfl

/-! ## The end of a name -/

/-- The lengths of the words, the last word first. -/
def shape (ws : List (List Char)) : List Nat := ws.reverse.map List.length

theorem shape_append (a b : List (List Char)) : shape (a ++ b) = shape b ++ shape a := by
  rw [shape, List.reverse_append, List.map_append]
  rfl

/-- How a timestamp ends: with a `Z`, or with an offset after the seconds or after the
microseconds. -/
inductive EventTail : List (List Char) → Prop where
  | utc {init : List (List Char)} {last : List Char} (z : 'z' ∈ last)
      (length : last.length = 3 ∨ last.length = 7) : EventTail (init ++ [last])
  | offset {ws : List (List Char)} (widths : [2, 2, 2, 2, 5] <+: shape ws) : EventTail ws
  | offsetMicroseconds {ws : List (List Char)} (widths : [2, 2, 6, 2, 2, 5] <+: shape ws) :
      EventTail ws

/-- What stands before a timestamp does not change how it ends. -/
theorem EventTail.append_left {ws : List (List Char)} (h : EventTail ws)
    (front : List (List Char)) : EventTail (front ++ ws) := by
  have hshape : shape ws <+: shape (front ++ ws) := by
    rw [shape_append]
    exact List.prefix_append _ _
  cases h with
  | utc z length =>
    rw [← List.append_assoc]
    exact .utc z length
  | offset widths => exact .offset (widths.trans hshape)
  | offsetMicroseconds widths => exact .offsetMicroseconds (widths.trans hshape)

theorem EventTail.ne_nil {ws : List (List Char)} (h : EventTail ws) : ws ≠ [] := by
  cases h with
  | utc => exact List.append_ne_nil_of_right_ne_nil _ (List.cons_ne_nil _ _)
  | offset widths =>
    rintro rfl
    exact absurd (List.prefix_nil.mp widths) (List.cons_ne_nil _ _)
  | offsetMicroseconds widths =>
    rintro rfl
    exact absurd (List.prefix_nil.mp widths) (List.cons_ne_nil _ _)

theorem length_isoOffset (ts : Timestamp) : (isoOffset ts).length = 6 := by
  have hlow := ts.offset_gt
  have hhigh := ts.offset_lt
  have hhours : (padded 2 (ts.offsetMinutes.natAbs / 60)).length = 2 :=
    length_padded (by decide) (by omega)
  have hminutes : (padded 2 (ts.offsetMinutes.natAbs % 60)).length = 2 :=
    length_padded (by decide) (by omega)
  simp only [isoOffset, List.cons_append, List.length_cons, List.length_append, hhours, hminutes]

/-- A timestamp in UTC loses the offset and gains a `Z`. -/
theorem toRfc3339Z_eq (ts : Timestamp) :
    toRfc3339Z ts = String.ofList (isoLocal ts ++ ['Z']) ∨
      toRfc3339Z ts = String.ofList (isoLocal ts ++ isoOffset ts) := by
  unfold toRfc3339Z
  by_cases h : "+00:00".toList.isSuffixOf (isoformat ts) = true
  · have htake : (isoformat ts).take ((isoformat ts).length - 6) = isoLocal ts := by
      rw [isoformat, List.length_append, length_isoOffset, Nat.add_sub_cancel, List.take_left]
    left
    show (if _ then String.ofList ((isoformat ts).take ((isoformat ts).length - 6) ++ ['Z'])
      else _) = _
    rw [if_pos h, htake]
  · right
    exact if_neg h

/-- The last word of a timestamp in UTC. -/
theorem eventTail_utc (front : List (List Char)) (width n : Nat)
    (hlen : (padded width n).length = 2 ∨ (padded width n).length = 6) :
    EventTail (front ++ words (padded width n ++ legalize ['Z'])) := by
  have hz : legalize ['Z'] = ['z'] := by decide
  rw [hz, words_eq_singleton (isWord_append_singleton isWord_padded (by decide))]
  refine .utc (List.mem_append_right _ List.mem_cons_self) ?_
  rw [List.length_append, List.length_singleton]
  omega

/-- The end of a timestamp, as the words of a name show it. -/
theorem eventTail_timestamp (ts : Timestamp) : EventTail (wordsOf (toRfc3339Z ts)) := by
  have hmonth := length_padded (show 0 < 2 by decide)
    (show ts.month < 10 ^ 2 from by have := ts.month_le; omega)
  have hday := length_padded (show 0 < 2 by decide)
    (show ts.day < 10 ^ 2 from by have := ts.day_le; omega)
  have hhour := length_padded (show 0 < 2 by decide)
    (show ts.hour < 10 ^ 2 from by have := ts.hour_lt; omega)
  have hminute := length_padded (show 0 < 2 by decide)
    (show ts.minute < 10 ^ 2 from by have := ts.minute_lt; omega)
  have hsecond := length_padded (show 0 < 2 by decide)
    (show ts.second < 10 ^ 2 from by have := ts.second_lt; omega)
  have hmicro := length_padded (show 0 < 6 by decide) (show ts.microsecond < 10 ^ 6 from
    ts.microsecond_lt)
  rcases toRfc3339Z_eq ts with h | h
  · rw [h, wordsOf, String.toList_ofList, words_isoLocal, words_isoSeconds]
    split
    · exact eventTail_utc _ 2 ts.second (.inl hsecond)
    · rw [List.append_cons]
      exact eventTail_utc _ 6 ts.microsecond (.inr hmicro)
  · have hlow := ts.offset_gt
    have hhigh := ts.offset_lt
    have hhours := length_padded (show 0 < 2 by decide)
      (show ts.offsetMinutes.natAbs / 60 < 10 ^ 2 by omega)
    have hminutes := length_padded (show 0 < 2 by decide)
      (show ts.offsetMinutes.natAbs % 60 < 10 ^ 2 by omega)
    rw [h, wordsOf, String.toList_ofList, words_isoLocal, words_isoSeconds, legalize_isoOffset]
    split
    · rw [words_padded_dash, words_padded_dash, words_padded]
      refine .offset ⟨[2, (padded 4 ts.year).length], ?_⟩
      simp [shape, dayHour, hmonth, hday, hhour, hminute, hsecond, hhours, hminutes]
    · rw [words_padded_dash, words_padded_dash, words_padded]
      refine .offsetMicroseconds ⟨[2, (padded 4 ts.year).length], ?_⟩
      simp [shape, dayHour, hmonth, hday, hhour, hminute, hsecond, hhours, hminutes, hmicro]

/-- A timestamp has a colon in it, which no name has. -/
theorem colon_mem_timestamp (ts : Timestamp) : ':' ∈ (toRfc3339Z ts).toList := by
  have hlocal : ':' ∈ isoLocal ts := by simp [isoLocal]
  rcases toRfc3339Z_eq ts with h | h
  · rw [h, String.toList_ofList]
    exact List.mem_append_left _ hlocal
  · rw [h, String.toList_ofList]
    exact List.mem_append_left _ hlocal

end MissionCompiler.Names
