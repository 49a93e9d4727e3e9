import Mathlib.Data.Nat.Digits
import Wdt.Getline
import Wdt.Request

/-!
# The folly helpers behind manifest parsing

`readManifest` cuts each manifest line with `folly::split('\t', line, fields, true)` and reads
the size field with `folly::to<int64_t>`. Both are library code, modelled here on characters.

`split` is the scan of folly's `internalSplit` for a one-character delimiter: it keeps the token
read since the last delimiter and, at each delimiter and at the end, emits that token unless it
is empty and `ignoreEmpty` is set. With `ignoreEmpty` (the only way `readManifest` calls it) a
run of delimiters acts as one separator and leading or trailing delimiters vanish. That is
stated by

* `split_cases` — a line is delimiters only, or a run of delimiters, a non-empty
  delimiter-free field, and then either nothing or a delimiter followed by a rest whose fields
  come next;
* `split_eq_nil_iff`, `split_eq_singleton_iff`, `split_eq_pair_iff` — the lines with no field,
  one field and two fields, as runs of delimiters around and between the fields;

which the manifest module turns into its line grammar, and `split_eq_splitOn`, which says what
the scan computes: the pieces of the input between delimiters (`List.splitOn`), the empty ones
dropped when `ignoreEmpty` is set.

`toInt64` is `folly::to<int64_t>` on a field: optional leading white space and sign, decimal
digits, a range check against `int64_t`, and only white space after the digits. Its value is an
`Int64`, so the range is a fact of the type. `toInt64_eq_ok_iff` gives the grammar of the
fields it accepts, `Int64Text`, and `toInt64_toDecimal` shows that it reads back every `int64_t`
written in decimal (`toDecimal`), which is how the canonical manifest writes a size, also when
white space such as the `\r` of a Windows line end follows (`toInt64_toDecimal_append`).
-/

namespace Wdt
namespace Folly

/-! ### `folly::split` -/

/-- Emitting the token read since the last delimiter:
`if (!ignoreEmpty || tokenSize > 0) *out++ = token;`. -/
def emitToken (ignoreEmpty : Bool) (token : List Char) (out : List (List Char)) :
    List (List Char) :=
  if !ignoreEmpty || 0 < token.length then token :: out else out

/-- The scan of `internalSplit` for a one-character delimiter, from the current position on;
`token` holds the characters read since the last delimiter. -/
def internalSplit (delim : Char) (ignoreEmpty : Bool) (token : List Char) :
    List Char → List (List Char)
  | [] => emitToken ignoreEmpty token []
  | c :: cs =>
    if c = delim then emitToken ignoreEmpty token (internalSplit delim ignoreEmpty [] cs)
    else internalSplit delim ignoreEmpty (token ++ [c]) cs

/-- `folly::split(delim, input, out, ignoreEmpty)` into an empty vector `out`. The library's
shortcut for an input shorter than the delimiter (here: the empty input) emits the input iff
`!ignoreEmpty`, which is what the scan does too. -/
def split (delim : Char) (input : List Char) (ignoreEmpty : Bool) : List (List Char) :=
  internalSplit delim ignoreEmpty [] input

/-- A run of delimiters, possibly empty. -/
def IsRun (d : Char) (t : List Char) : Prop := ∀ c ∈ t, c = d

/-- A field between delimiters: non-empty and free of the delimiter. -/
def IsField (d : Char) (f : List Char) : Prop := f ≠ [] ∧ ∀ c ∈ f, c ≠ d

section Split

variable {d : Char} {ie : Bool}

theorem IsRun.cons {t : List Char} (ht : IsRun d t) : IsRun d (d :: t) := by
  simpa [IsRun] using ht

theorem IsRun.of_cons {c : Char} {t : List Char} (ht : IsRun d (c :: t)) : c = d ∧ IsRun d t :=
  ⟨ht c (List.mem_cons_self _ _), fun x hx => ht x (List.mem_cons_of_mem _ hx)⟩

@[simp] theorem emitToken_nil_true (out : List (List Char)) : emitToken true [] out = out := rfl

@[simp] theorem emitToken_of_ne_nil {t : List Char} (h : t ≠ []) (out : List (List Char)) :
    emitToken ie t out = t :: out := by
  simp [emitToken, List.length_pos.mpr h]

/-- A delimiter-free chunk only grows the current token. -/
theorem internalSplit_append_of_ne {p : List Char} (hp : ∀ c ∈ p, c ≠ d)
    (token rest : List Char) :
    internalSplit d ie token (p ++ rest) = internalSplit d ie (token ++ p) rest := by
  induction p generalizing token with
  | nil => simp
  | cons c p ih =>
    rw [List.cons_append, internalSplit, if_neg (hp c (List.mem_cons_self _ _)),
      ih (fun x hx => hp x (List.mem_cons_of_mem _ hx)), List.append_assoc, List.singleton_append]

theorem internalSplit_delim (token rest : List Char) :
    internalSplit d ie token (d :: rest) = emitToken ie token (internalSplit d ie [] rest) := by
  simp [internalSplit]

/-- With `ignoreEmpty`, delimiters at a token boundary emit nothing. -/
theorem split_run_append {t : List Char} (ht : IsRun d t) (rest : List Char) :
    split d (t ++ rest) true = split d rest true := by
  induction t with
  | nil => rfl
  | cons c t ih =>
    obtain ⟨rfl, ht⟩ := ht.of_cons
    rw [List.cons_append, split, internalSplit_delim, emitToken_nil_true]
    exact ih ht

theorem split_field {f : List Char} (hf : IsField d f) : split d f true = [f] := by
  have h : internalSplit d true [] (f ++ []) = internalSplit d true ([] ++ f) [] :=
    internalSplit_append_of_ne hf.2 [] []
  rw [List.append_nil, List.nil_append] at h
  rw [split, h, internalSplit, emitToken_of_ne_nil hf.1]

/-- A field after a run of delimiters, closed by a delimiter, is the first field emitted. -/
theorem split_append_field {t f : List Char} (ht : IsRun d t) (hf : IsField d f)
    (rest : List Char) : split d (t ++ f ++ d :: rest) true = f :: split d rest true := by
  rw [List.append_assoc, split_run_append ht, split, internalSplit_append_of_ne hf.2,
    List.nil_append, internalSplit_delim, emitToken_of_ne_nil hf.1, split]

/-- **The first field.** A line is either delimiters only, or a run of delimiters, a non-empty
delimiter-free field `f`, and then the end of the line or a delimiter and a `rest`; the fields
of the line are `f` followed by the fields of `rest`. -/
theorem split_cases (s : List Char) :
    IsRun d s ∨
      ∃ t f rest, IsRun d t ∧ IsField d f ∧
        ((s = t ++ f ∧ rest = []) ∨ s = t ++ f ++ d :: rest) ∧
        split d s true = f :: split d rest true := by
  -- the leading run of delimiters
  have hs := (List.takeWhile_append_dropWhile (· == d) s).symm
  have ht : IsRun d (s.takeWhile (· == d)) := fun c hc => by
    simpa using List.mem_takeWhile_imp hc
  have hr := List.head?_dropWhile_not (· == d) s
  generalize s.takeWhile (· == d) = t at hs ht
  generalize s.dropWhile (· == d) = r at hs hr
  subst hs
  rcases r with _ | ⟨c, r⟩
  · exact .inl (by simpa using ht)
  -- the field, up to the next delimiter
  have hc : c ≠ d := by simpa using hr
  have hcr := (List.takeWhile_append_dropWhile (· != d) (c :: r)).symm
  have hf : ∀ x ∈ (c :: r).takeWhile (· != d), x ≠ d := fun x hx => by
    simpa using List.mem_takeWhile_imp hx
  have hfne : (c :: r).takeWhile (· != d) ≠ [] := by simp [List.takeWhile_cons, hc]
  have hr' := List.head?_dropWhile_not (· != d) (c :: r)
  generalize (c :: r).takeWhile (· != d) = f at hcr hf hfne
  generalize (c :: r).dropWhile (· != d) = r' at hcr hr'
  rw [hcr]
  right
  rcases r' with _ | ⟨d', rest⟩
  · refine ⟨t, f, [], ht, ⟨hfne, hf⟩, .inl ⟨by simp, rfl⟩, ?_⟩
    rw [List.append_nil, split_run_append ht, split_field ⟨hfne, hf⟩]
    rfl
  · obtain rfl : d' = d := by simpa using hr'
    refine ⟨t, f, rest, ht, ⟨hfne, hf⟩, .inr (List.append_assoc _ _ _).symm, ?_⟩
    rw [← List.append_assoc]
    exact split_append_field ht ⟨hfne, hf⟩ rest

theorem split_eq_nil_iff {s : List Char} : split d s true = [] ↔ IsRun d s := by
  refine ⟨fun h => ?_, fun h => by simpa using split_run_append h []⟩
  rcases split_cases (d := d) s with hs | ⟨t, f, rest, -, -, -, hsplit⟩
  · exact hs
  · exact absurd (hsplit ▸ h) (List.cons_ne_nil _ _)

/-- A line has the single field `f` exactly when it is `f` between two runs of delimiters. -/
theorem split_eq_singleton_iff {s f : List Char} :
    split d s true = [f] ↔ ∃ t₀ t₁, IsRun d t₀ ∧ IsField d f ∧ IsRun d t₁ ∧ s = t₀ ++ f ++ t₁ := by
  constructor
  · intro h
    rcases split_cases (d := d) s with hs | ⟨t, f', rest, ht, hf, hs, hsplit⟩
    · exact absurd (split_eq_nil_iff.mpr hs ▸ h) (List.cons_ne_nil _ _).symm
    obtain ⟨rfl, hrest⟩ := List.cons.inj (hsplit ▸ h)
    rcases hs with ⟨rfl, rfl⟩ | rfl
    · exact ⟨t, [], ht, hf, by simp [IsRun], by simp⟩
    · exact ⟨t, d :: rest, ht, hf, (split_eq_nil_iff.mp hrest).cons, rfl⟩
  · rintro ⟨t₀, t₁, ht₀, hf, ht₁, rfl⟩
    rcases t₁ with _ | ⟨c, t₁⟩
    · rw [List.append_nil, split_run_append ht₀, split_field hf]
    · obtain ⟨rfl, ht₁⟩ := ht₁.of_cons
      rw [split_append_field ht₀ hf, split_eq_nil_iff.mpr ht₁]

/-- A line has the two fields `f` and `g` exactly when it is `f` and `g` separated by a
non-empty run of delimiters, with runs of delimiters around them. -/
theorem split_eq_pair_iff {s f g : List Char} :
    split d s true = [f, g] ↔
      ∃ t₀ t₁ t₂, IsRun d t₀ ∧ IsField d f ∧ IsRun d t₁ ∧ t₁ ≠ [] ∧ IsField d g ∧ IsRun d t₂ ∧
        s = t₀ ++ f ++ t₁ ++ g ++ t₂ := by
  constructor
  · intro h
    rcases split_cases (d := d) s with hs | ⟨t, f', rest, ht, hf, hs, hsplit⟩
    · exact absurd (split_eq_nil_iff.mpr hs ▸ h) (List.cons_ne_nil _ _).symm
    obtain ⟨rfl, hrest⟩ := List.cons.inj (hsplit ▸ h)
    rcases hs with ⟨-, rfl⟩ | rfl
    · cases hrest
    obtain ⟨t₁, t₂, ht₁, hg, ht₂, rfl⟩ := split_eq_singleton_iff.mp hrest
    exact ⟨t, d :: t₁, t₂, ht, hf, ht₁.cons, List.cons_ne_nil _ _, hg, ht₂, by simp⟩
  · rintro ⟨t₀, _ | ⟨c, t₁⟩, t₂, ht₀, hf, ht₁, hne, hg, ht₂, rfl⟩
    · exact absurd rfl hne
    obtain ⟨hc, ht₁⟩ := ht₁.of_cons
    have : t₀ ++ f ++ c :: t₁ ++ g ++ t₂ = t₀ ++ f ++ d :: (t₁ ++ g ++ t₂) := by simp [hc]
    rw [this, split_append_field ht₀ hf,
      split_eq_singleton_iff.mpr ⟨t₁, t₂, ht₁, hg, ht₂, rfl⟩]

/-! ### What the scan computes -/

/-- Without `ignoreEmpty` the scan cuts the rest of the input at every delimiter, as
`List.splitOn` does, with the pending token in front of the first piece. -/
theorem internalSplit_false (token s : List Char) :
    internalSplit d false token s = (s.splitOn d).modifyHead (token ++ ·) := by
  induction s generalizing token with
  | nil => simp [internalSplit, emitToken]
  | cons c s ih =>
    by_cases hc : c = d
    · simp [internalSplit, hc, ih, emitToken, List.splitOn]
    · simp [internalSplit, hc, ih, List.splitOn, Function.comp_def]

/-- `ignoreEmpty` only drops the empty tokens. -/
theorem internalSplit_true (token s : List Char) :
    internalSplit d true token s = (internalSplit d false token s).filter (· ≠ []) := by
  induction s generalizing token with
  | nil => cases token <;> simp [internalSplit, emitToken]
  | cons c s ih =>
    by_cases hc : c = d
    · cases token <;> simp [internalSplit, hc, ih, emitToken]
    · simp [internalSplit, hc, ih]

/-- **What `folly::split` computes.** The fields are the pieces of the input between
delimiters, `List.splitOn`; with `ignoreEmpty` the empty pieces are dropped. -/
theorem split_eq_splitOn (s : List Char) (ie : Bool) :
    split d s ie = if ie then (s.splitOn d).filter (· ≠ []) else s.splitOn d := by
  cases ie <;> simp [split, internalSplit_true, internalSplit_false]

end Split

/-! ### `folly::to<int64_t>` -/

/-- Why `folly::to<int64_t>` throws. -/
inductive ConversionError
  /-- No digit: the field is empty, white space only, or a sign alone. -/
  | noDigits
  /-- The first character after the white space is neither a digit nor a sign. -/
  | invalidLeadingChar
  /-- The character after the sign is not a digit. -/
  | nonDigitChar
  /-- The value is above `2^63 - 1`. -/
  | positiveOverflow
  /-- The value is below `-2^63`. -/
  | negativeOverflow
  /-- Something other than white space follows the digits. -/
  | nonWhitespaceAfterEnd
  deriving DecidableEq, Repr

/-- `isspace` in the "C" locale. -/
def isSpace (c : Char) : Bool :=
  c = ' ' || c = '\t' || c = '\n' || c = '\x0b' || c = '\x0c' || c = '\r'

/-- The optional sign of `str_to_integral`: a digit starts the number, `-` makes it negative,
`+` is skipped, anything else is an invalid lead character. -/
def readSign : List Char → Except ConversionError (Bool × List Char)
  | [] => .error .noDigits
  | c :: cs =>
    if c.isDigit then .ok (false, c :: cs)
    else if c = '-' then .ok (true, cs)
    else if c = '+' then .ok (false, cs)
    else .error .invalidLeadingChar

/-- The value of a string of decimal digits (`digits_to`), before any range check. -/
def digitsTo (ds : List Char) : Nat :=
  ds.foldl (fun n c => 10 * n + (c.toNat - '0'.toNat)) 0

/-- The signed range check of `str_to_integral`: a magnitude up to `2^63` with a minus sign,
below `2^63` without. -/
def checkRange (negative : Bool) (v : Nat) : Except ConversionError Int64 :=
  if negative then
    if h : v ≤ 9223372036854775808 then .ok ⟨-v, by omega, by omega⟩ else .error .negativeOverflow
  else
    if h : v < 9223372036854775808 then .ok ⟨v, by omega, by omega⟩ else .error .positiveOverflow

/-- `folly::to<int64_t>(src)`: `str_to_integral` (white space, an optional sign, at least one
digit, the range check) and then `enforceWhitespace` on what follows the digits. -/
def toInt64 (src : List Char) : Except ConversionError Int64 := do
  let (negative, m) ← readSign (src.dropWhile isSpace)
  let ds := m.takeWhile Char.isDigit
  if ds = [] then .error (if m = [] then .noDigits else .nonDigitChar)
  else do
    let v ← checkRange negative (digitsTo ds)
    if (m.dropWhile Char.isDigit).all isSpace then .ok v else .error .nonWhitespaceAfterEnd

/-! ### What `folly::to<int64_t>` accepts -/

/-- The texts `folly::to<int64_t>` accepts, with their values: white space, an optional sign,
decimal digits, white space. -/
inductive Int64Text : List Char → Int → Prop
  | mk {ws sign ds ws' : List Char} :
      (∀ c ∈ ws, isSpace c = true) → (sign = [] ∨ sign = ['+'] ∨ sign = ['-']) → ds ≠ [] →
      (∀ c ∈ ds, c.isDigit = true) → (∀ c ∈ ws', isSpace c = true) →
      Int64Text (ws ++ sign ++ ds ++ ws') (if sign = ['-'] then -(digitsTo ds : Int) else digitsTo ds)

theorem isSpace_eq_false_of_isDigit {c : Char} (h : c.isDigit = true) : isSpace c = false := by
  simp only [Char.isDigit, Bool.and_eq_true, decide_eq_true_eq] at h
  simp only [isSpace, Bool.or_eq_false_iff, decide_eq_false_iff_not]
  refine ⟨⟨⟨⟨⟨?_, ?_⟩, ?_⟩, ?_⟩, ?_⟩, ?_⟩ <;> rintro rfl <;> simp_all

/-- White space holds no digit. -/
theorem takeWhile_dropWhile_isDigit_of_spaces {ws : List Char} (h : ∀ c ∈ ws, isSpace c = true) :
    ws.takeWhile Char.isDigit = [] ∧ ws.dropWhile Char.isDigit = ws := by
  cases ws with
  | nil => exact ⟨rfl, rfl⟩
  | cons c cs =>
    have hc : c.isDigit = false := Bool.eq_false_iff.mpr fun hd => by
      simp [isSpace_eq_false_of_isDigit hd] at h
    simp [hc]

/-- The range check passes exactly with the signed value. -/
theorem checkRange_eq_ok_iff {negative : Bool} {v : Nat} {n : Int64} :
    checkRange negative v = .ok n ↔ n.val = if negative then -(v : Int) else v := by
  have := n.ge
  have := n.lt
  unfold checkRange
  split_ifs <;> simp only [Except.ok.injEq, Int64.ext_iff, reduceCtorEq, false_iff] <;> omega

/-- Leading white space is skipped. -/
theorem toInt64_spaces_append {ws : List Char} (h : ∀ c ∈ ws, isSpace c = true)
    (r : List Char) : toInt64 (ws ++ r) = toInt64 r := by
  simp only [toInt64, List.dropWhile_append_of_pos h]

/-- `folly::to<int64_t>` on white space, a sign, digits and white space: the range-checked value
of the digits, negative after a minus sign. -/
theorem toInt64_text {ws sign ds ws' : List Char} (hws : ∀ c ∈ ws, isSpace c = true)
    (hsign : sign = [] ∨ sign = ['+'] ∨ sign = ['-']) (hne : ds ≠ [])
    (hds : ∀ c ∈ ds, c.isDigit = true) (hws' : ∀ c ∈ ws', isSpace c = true) :
    toInt64 (ws ++ sign ++ ds ++ ws') = checkRange (sign = ['-']) (digitsTo ds) := by
  have hread : readSign ((sign ++ (ds ++ ws')).dropWhile isSpace) =
      .ok (decide (sign = ['-']), ds ++ ws') := by
    obtain ⟨d, ds', rfl⟩ := List.exists_cons_of_ne_nil hne
    have hsp : isSpace d = false := isSpace_eq_false_of_isDigit (hds d (by simp))
    have hsigns : isSpace '+' = false ∧ isSpace '-' = false := by decide
    rcases hsign with rfl | rfl | rfl <;> simp [readSign, hsp, hds d, hsigns]
  have htake : (ds ++ ws').takeWhile Char.isDigit = ds := by
    rw [List.takeWhile_append_of_pos hds, (takeWhile_dropWhile_isDigit_of_spaces hws').1,
      List.append_nil]
  have hdrop : (ds ++ ws').dropWhile Char.isDigit = ws' := by
    rw [List.dropWhile_append_of_pos hds, (takeWhile_dropWhile_isDigit_of_spaces hws').2]
  rw [List.append_assoc, List.append_assoc, toInt64_spaces_append hws]
  simp only [toInt64, hread, htake, hdrop, if_neg hne, List.all_eq_true.mpr hws', bind,
    Except.bind, if_true]
  cases checkRange _ _ <;> rfl

/-- What `readSign` takes off: nothing before a digit, else the sign. -/
theorem readSign_eq_ok {r m : List Char} {negative : Bool} (h : readSign r = .ok (negative, m)) :
    ∃ sign, (sign = [] ∨ sign = ['+'] ∨ sign = ['-']) ∧ negative = decide (sign = ['-']) ∧
      r = sign ++ m := by
  cases r with
  | nil => cases h
  | cons c cs =>
    simp only [readSign] at h
    split_ifs at h with hd hm hp <;> cases h
    · exact ⟨[], .inl rfl, rfl, rfl⟩
    · exact ⟨['-'], .inr (.inr rfl), by simp, by simp [hm]⟩
    · exact ⟨['+'], .inr (.inl rfl), by simp, by simp [hp]⟩

/-- **The texts `folly::to<int64_t>` accepts.** A size field converts exactly when it is white
space, an optional sign, at least one decimal digit and white space, with a value in the range
of `int64_t`; the result is that value. -/
theorem toInt64_eq_ok_iff {s : List Char} {n : Int64} :
    toInt64 s = .ok n ↔ Int64Text s n.val := by
  constructor
  · intro h
    rcases hr : readSign (s.dropWhile isSpace) with e | ⟨negative, m⟩
    · simp [toInt64, hr, bind, Except.bind] at h
    obtain ⟨sign, hsign, rfl, hm⟩ := readSign_eq_ok hr
    have hne : m.takeWhile Char.isDigit ≠ [] := by
      intro h0
      simp [toInt64, hr, h0, bind, Except.bind] at h
    simp only [toInt64, hr, bind, Except.bind, if_neg hne] at h
    rcases hc : checkRange (decide (sign = ['-'])) (digitsTo (m.takeWhile Char.isDigit)) with e | v
    · simp [hc] at h
    simp only [hc] at h
    split_ifs at h with hall
    cases h
    have hs : s = s.takeWhile isSpace ++ sign ++ m.takeWhile Char.isDigit ++
        m.dropWhile Char.isDigit := by
      rw [List.append_assoc, List.append_assoc, List.takeWhile_append_dropWhile, ← hm,
        List.takeWhile_append_dropWhile]
    rw [checkRange_eq_ok_iff] at hc
    simp only [decide_eq_true_eq] at hc
    rw [hs, hc]
    exact .mk (fun _ hc => List.mem_takeWhile_imp hc) hsign hne (fun _ hc => List.mem_takeWhile_imp hc)
      (List.all_eq_true.mp hall)
  · intro h
    generalize hv : n.val = v at h
    obtain ⟨hws, hsign, hne, hds, hws'⟩ := h
    rw [toInt64_text hws hsign hne hds hws', checkRange_eq_ok_iff, hv]
    simp

/-! ### Decimal text -/

theorem digitsTo_append (ds ds' : List Char) :
    digitsTo (ds ++ ds') = ds'.foldl (fun n c => 10 * n + (c.toNat - '0'.toNat)) (digitsTo ds) := by
  simp [digitsTo, List.foldl_append]

/-- A run of decimal digits, with a minus sign in front when `negative` and white space after,
converts to its value, range-checked. -/
theorem toInt64_digits {ds ws : List Char} (hne : ds ≠ []) (hd : ∀ c ∈ ds, c.isDigit = true)
    (hws : ∀ c ∈ ws, isSpace c = true) (negative : Bool) :
    toInt64 ((if negative then ['-'] else []) ++ ds ++ ws) = checkRange negative (digitsTo ds) := by
  cases negative
  · simpa using @toInt64_text [] [] ds ws nofun (.inl rfl) hne hd hws
  · simpa using @toInt64_text [] ['-'] ds ws nofun (.inr (.inr rfl)) hne hd hws

/-- `Nat.toDigits 10` puts the decimal digits of `n`, most significant first, in front of its
accumulator. -/
theorem toDigitsCore_ten {fuel n : Nat} (h : n < fuel) (ds : List Char) :
    ∃ digits, Nat.toDigitsCore 10 fuel n ds = digits ++ ds ∧ digits ≠ [] ∧
      (∀ c ∈ digits, c.isDigit = true) ∧ digitsTo digits = n := by
  have hd : ∀ k < 10, (Nat.digitChar k).toNat - '0'.toNat = k ∧ (Nat.digitChar k).isDigit := by
    decide
  induction fuel generalizing n ds with
  | zero => omega
  | succ fuel ih =>
    obtain ⟨hval, hdig⟩ := hd (n % 10) (Nat.mod_lt _ (by decide))
    rw [Nat.toDigitsCore]
    split_ifs with h0
    · refine ⟨[Nat.digitChar (n % 10)], rfl, by simp, List.forall_mem_singleton.mpr hdig, ?_⟩
      simp only [digitsTo, List.foldl_cons, List.foldl_nil, hval]
      omega
    · obtain ⟨digits, heq, -, hall, hval'⟩ :=
        ih (n := n / 10) (by omega) (Nat.digitChar (n % 10) :: ds)
      refine ⟨digits ++ [Nat.digitChar (n % 10)], by simp [heq], by simp,
        List.forall_mem_append.mpr ⟨hall, List.forall_mem_singleton.mpr hdig⟩, ?_⟩
      rw [digitsTo_append, hval', List.foldl_cons, List.foldl_nil, hval]
      omega

/-- `Nat.toDigits 10 m` is a non-empty run of decimal digits worth `m`. -/
theorem toDigits_ten (m : Nat) :
    Nat.toDigits 10 m ≠ [] ∧ (∀ c ∈ Nat.toDigits 10 m, c.isDigit = true) ∧
      digitsTo (Nat.toDigits 10 m) = m := by
  obtain ⟨digits, heq, h⟩ := toDigitsCore_ten (Nat.lt_succ_self m) []
  rw [List.append_nil] at heq
  rwa [Nat.toDigits, heq]

/-- The decimal text of an `int64_t`, as `folly::to<std::string>` writes it: a minus sign for a
negative value, then the digits of the magnitude. -/
def toDecimal (n : Int64) : List Char :=
  (if n.val < 0 then ['-'] else []) ++ Nat.toDigits 10 n.val.natAbs

theorem toDecimal_ne_nil (n : Int64) : toDecimal n ≠ [] := by
  simp [toDecimal, (toDigits_ten _).1]

/-- Decimal text holds nothing but digits and the minus sign. -/
theorem not_mem_toDecimal {n : Int64} {c : Char} (hm : c ≠ '-') (hd : c.isDigit = false) :
    c ∉ toDecimal n := by
  intro h
  rcases List.mem_append.mp h with h | h
  · split_ifs at h <;> simp_all
  · simp [(toDigits_ten _).2.1 c h] at hd

/-- `folly::to<int64_t>` reads back every `int64_t` written in decimal and followed by white
space. -/
theorem toInt64_toDecimal_append {ws : List Char} (hws : ∀ c ∈ ws, isSpace c = true)
    (n : Int64) : toInt64 (toDecimal n ++ ws) = .ok n := by
  obtain ⟨hne, hall, hval⟩ := toDigits_ten n.val.natAbs
  have h := toInt64_digits hne hall hws (decide (n.val < 0))
  simp only [decide_eq_true_eq, hval] at h
  rw [toDecimal, h, checkRange]
  have := n.ge
  have := n.lt
  by_cases hn : n.val < 0
  · rw [if_pos (decide_eq_true hn), dif_pos (by omega)]
    exact congrArg _ (Int64.ext (by simp only; omega))
  · rw [if_neg (by simpa using hn), dif_pos (by omega)]
    exact congrArg _ (Int64.ext (by simp only; omega))

/-- **Decimal round trip.** `folly::to<int64_t>` reads back every `int64_t` written in decimal,
`-2^63` and `2^63 - 1` included. -/
theorem toInt64_toDecimal (n : Int64) : toInt64 (toDecimal n) = .ok n := by
  simpa using @toInt64_toDecimal_append [] nofun n

end Folly
end Wdt
