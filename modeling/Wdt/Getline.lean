import Mathlib.Data.List.Basic

/-!
# Reading a stream line by line

`readManifest` consumes its input with `while (std::getline(fin, line))`. A stream is modelled
by the characters it has left to extract, and one call of `std::getline` by `getline`: the line
is everything up to the first `'\n'`, the newline is extracted and not stored, a stream that
ends without a newline gives its remaining characters as a last line, and the read fails
(`failbit`, which ends the loop) exactly when no character is left.

`lines` is the whole loop: the lines that `while (std::getline(fin, line))` hands to its body,
in order. It is characterised completely by two round trips with `unlines`, which writes each
line followed by a newline:

* `lines_unlines` — newline-free lines written out are read back unchanged;
* `unlines_lines` — reading a stream and writing its lines back gives the stream, plus a
  newline when its last line was unterminated;

together with `newline_not_mem_of_mem_lines`: no line that the loop reads holds a newline.
`lines_eq_splitOn` says what the loop computes: the pieces of the stream between newlines
(`List.splitOn`), without the empty piece after a final newline.

The single inversion lemma `getline_eq_some` says everything one read can do; every later
proof goes through it and never unfolds `getline`.
-/

namespace Wdt

/-! ### One call of `std::getline` -/

/-- The characters of one line and what is left behind its newline: the extraction loop of
`std::getline`, which stops at the delimiter `'\n'` (extracted, not stored) or at the end of
the stream. -/
def extractLine : List Char → List Char × List Char
  | [] => ([], [])
  | c :: cs => if c = '\n' then ([], cs) else (c :: (extractLine cs).1, (extractLine cs).2)

/-- `std::getline(fin, line)` with the default delimiter `'\n'`. The result is `none` when the
read sets `failbit`, which happens exactly when no character is left to extract; otherwise it
is the line read and the characters left in the stream. -/
def getline : List Char → Option (List Char × List Char)
  | [] => none
  | c :: cs => some (extractLine (c :: cs))

@[simp] theorem getline_nil : getline [] = none := rfl

theorem extractLine_append_newline {l : List Char} (h : '\n' ∉ l) (rest : List Char) :
    extractLine (l ++ '\n' :: rest) = (l, rest) := by
  induction l with
  | nil => simp [extractLine]
  | cons c l ih =>
    have hc : c ≠ '\n' := fun hc => h (hc ▸ List.mem_cons_self _ _)
    simp [extractLine, hc, ih (fun hl => h (List.mem_cons_of_mem _ hl))]

/-- What one extraction does: the line holds no newline, and the stream was the line followed
either by a newline and the rest, or by nothing at all. -/
theorem extractLine_spec {s line rest : List Char} (h : extractLine s = (line, rest)) :
    '\n' ∉ line ∧ (s = line ++ '\n' :: rest ∨ (s = line ∧ rest = [])) := by
  induction s generalizing line rest with
  | nil => cases h; simp
  | cons c cs ih =>
    by_cases hc : c = '\n'
    · obtain ⟨rfl, rfl⟩ := Prod.mk.inj (by simpa [extractLine, hc] using h.symm)
      simp [hc]
    · obtain ⟨rfl, rfl⟩ := Prod.mk.inj (by simpa [extractLine, hc] using h.symm)
      obtain ⟨hnl, hs⟩ := ih Prod.mk.eta.symm
      simpa [Ne.symm hc, hnl] using hs

/-- **Inversion of `getline`.** A successful read took a newline-free line from a non-empty
stream, which was that line followed by a newline and the rest, or that line alone. -/
theorem getline_eq_some {fin line rest : List Char} (h : getline fin = some (line, rest)) :
    '\n' ∉ line ∧ (fin = line ++ '\n' :: rest ∨ (fin = line ∧ rest = [] ∧ line ≠ [])) := by
  cases fin with
  | nil => cases h
  | cons c cs =>
    obtain ⟨hnl, hs | ⟨hs, hr⟩⟩ := extractLine_spec (Option.some.inj h)
    · exact ⟨hnl, .inl hs⟩
    · exact ⟨hnl, .inr ⟨hs, hr, hs ▸ List.cons_ne_nil c cs⟩⟩

theorem getline_append_newline {l : List Char} (h : '\n' ∉ l) (rest : List Char) :
    getline (l ++ '\n' :: rest) = some (l, rest) := by
  cases l <;> exact congrArg some (extractLine_append_newline h rest)

/-- Every successful read consumes at least one character: the loop over `getline`
terminates. -/
theorem getline_rest_length_lt {fin line rest : List Char}
    (h : getline fin = some (line, rest)) : rest.length < fin.length := by
  obtain ⟨-, rfl | ⟨rfl, rfl, hne⟩⟩ := getline_eq_some h
  · simp only [List.length_append, List.length_cons]; omega
  · exact List.length_pos.mpr hne

/-! ### The loop `while (std::getline(fin, line))` -/

set_option linter.unusedVariables false in
/-- The lines that `while (std::getline(fin, line))` hands to its body, in order. -/
def lines (fin : List Char) : List (List Char) :=
  match h : getline fin with
  | none => []
  | some (line, rest) => line :: lines rest
termination_by fin.length
decreasing_by exact getline_rest_length_lt h

theorem lines_of_getline_none {fin : List Char} (h : getline fin = none) : lines fin = [] := by
  rw [lines]; split <;> simp_all

theorem lines_of_getline_some {fin line rest : List Char}
    (h : getline fin = some (line, rest)) : lines fin = line :: lines rest := by
  rw [lines]; split <;> simp_all

@[simp] theorem lines_nil : lines [] = [] := lines_of_getline_none rfl

/-- No line that the loop reads holds a newline. -/
theorem newline_not_mem_of_mem_lines {fin l : List Char} (hl : l ∈ lines fin) : '\n' ∉ l := by
  induction fin using lines.induct with
  | case1 fin h => simp [lines_of_getline_none h] at hl
  | case2 fin line rest h ih =>
    rw [lines_of_getline_some h, List.mem_cons] at hl
    rcases hl with rfl | hl
    · exact (getline_eq_some h).1
    · exact ih hl

/-! ### Round trips with `unlines` -/

/-- Writing each line followed by a newline. -/
def unlines : List (List Char) → List Char
  | [] => []
  | l :: ls => l ++ '\n' :: unlines ls

/-- **Round trip, writing first.** Lines without newlines, written one per line, are read back
by the `getline` loop exactly: none is lost, split, merged or reordered. -/
theorem lines_unlines {ls : List (List Char)} (h : ∀ l ∈ ls, '\n' ∉ l) :
    lines (unlines ls) = ls := by
  induction ls with
  | nil => simp [unlines]
  | cons l ls ih =>
    rw [unlines, lines_of_getline_some (getline_append_newline (h l (List.mem_cons_self _ _)) _),
      ih (fun l' hl' => h l' (List.mem_cons_of_mem _ hl'))]

/-- **Round trip, reading first.** Writing back the lines of a stream gives the stream, with a
newline added when its last line was not terminated. -/
theorem unlines_lines (fin : List Char) :
    unlines (lines fin) = fin ++ (if fin.getLast?.all (· = '\n') then [] else ['\n']) := by
  induction fin using lines.induct with
  | case1 fin h =>
    obtain rfl : fin = [] := by cases fin <;> simp_all [getline]
    simp [unlines]
  | case2 fin line rest h ih =>
    rw [lines_of_getline_some h, unlines, ih]
    obtain ⟨hnl, rfl | ⟨rfl, rfl, hne⟩⟩ := getline_eq_some h
    · rw [List.getLast?_append_cons, List.getLast?_cons]
      cases rest.getLast? <;> simp
    · obtain ⟨l', c, rfl⟩ := (List.eq_nil_or_concat _).resolve_left hne
      have hc : c ≠ '\n' := fun hc => hnl (by simp [hc])
      simp [unlines, hc]

/-! ### What the loop computes -/

@[simp] theorem modifyHead_self (l : List (List Char)) : l.modifyHead (fun x => x) = l := by
  cases l <;> rfl

/-- A newline-free stream is extracted whole. -/
theorem extractLine_of_newline_not_mem {l : List Char} (h : '\n' ∉ l) :
    extractLine l = (l, []) := by
  induction l with
  | nil => rfl
  | cons c l ih =>
    have hc : c ≠ '\n' := fun hc => h (hc ▸ List.mem_cons_self _ _)
    simp [extractLine, hc, ih (fun hl => h (List.mem_cons_of_mem _ hl))]

/-- A stream that ends with a newline, after a newline-free part `acc` of its first line. -/
theorem lines_append_append_newline {acc : List Char} (hacc : '\n' ∉ acc) (s : List Char) :
    lines (acc ++ s ++ ['\n']) = (s.splitOn '\n').modifyHead (acc ++ ·) := by
  induction s generalizing acc with
  | nil => simp [lines_of_getline_some (getline_append_newline hacc [])]
  | cons c s ih =>
    by_cases hc : c = '\n'
    · subst hc
      have h := @ih [] (List.not_mem_nil _)
      simp only [List.nil_append, modifyHead_self] at h
      rw [List.append_assoc, List.cons_append,
        lines_of_getline_some (getline_append_newline hacc _), h]
      simp [List.splitOn]
    · have h := @ih (acc ++ [c]) (by simp [hacc, Ne.symm hc])
      have hs : acc ++ c :: s ++ ['\n'] = acc ++ [c] ++ s ++ ['\n'] := by simp
      rw [hs, h]
      simp [List.splitOn, hc, Function.comp_def]

/-- A stream that ends without a newline, after a newline-free part `acc` of its first line. -/
theorem lines_append_of_getLast {acc : List Char} (hacc : '\n' ∉ acc) (s : List Char)
    (hne : acc ++ s ≠ []) (hlast : s.getLast? ≠ some '\n') :
    lines (acc ++ s) = (s.splitOn '\n').modifyHead (acc ++ ·) := by
  induction s generalizing acc with
  | nil =>
    obtain ⟨c, cs, rfl⟩ := List.exists_cons_of_ne_nil (by simpa using hne)
    have h : getline (c :: cs) = some (c :: cs, []) :=
      congrArg some (extractLine_of_newline_not_mem hacc)
    simp [lines_of_getline_some h]
  | cons c s ih =>
    by_cases hc : c = '\n'
    · subst hc
      have hs : s ≠ [] := by rintro rfl; exact hlast rfl
      have h := @ih [] (List.not_mem_nil _) (by simpa using hs) (by cases s <;> simp_all)
      simp only [List.nil_append, modifyHead_self] at h
      rw [lines_of_getline_some (getline_append_newline hacc _), h]
      simp [List.splitOn]
    · have h := @ih (acc ++ [c]) (by simp [hacc, Ne.symm hc]) (by simp)
        (by cases s <;> simp_all)
      have hs : acc ++ c :: s = acc ++ [c] ++ s := by simp
      rw [hs, h]
      simp [List.splitOn, hc, Function.comp_def]

/-- **What the loop computes.** The lines read from a stream are its pieces between newlines,
as `List.splitOn` cuts them, except the empty piece after a final newline: a stream that ends
with a newline reads as the pieces of what comes before it, one that does not as its own. -/
theorem lines_eq_splitOn (s : List Char) :
    lines (s ++ ['\n']) = s.splitOn '\n' ∧
      (s ≠ [] → s.getLast? ≠ some '\n' → lines s = s.splitOn '\n') := by
  refine ⟨by simpa using @lines_append_append_newline [] (List.not_mem_nil _) s,
    fun hne hlast => ?_⟩
  simpa using @lines_append_of_getLast [] (List.not_mem_nil _) s (by simpa using hne) hlast

theorem lines_eq_splitOn_blank_line :
    ['a', '\n', '\n', 'b'] ≠ [] ∧ ['a', '\n', '\n', 'b'].getLast? ≠ some '\n' ∧
      lines ['a', '\n', '\n', 'b'] = [['a'], [], ['b']] :=
  ⟨by decide, by decide, ((lines_eq_splitOn _).2 (by decide) (by decide)).trans rfl⟩

end Wdt
