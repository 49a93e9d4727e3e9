import Mathlib.Data.List.Forall2
import Wdt.Getline
import Wdt.Folly

/-!
# Reading the manifest

In sender mode with `-manifest`, `main` fills the request's file list with
`readManifest(fin, req)`:

```
while (std::getline(fin, line)) {
  std::vector<std::string> fields;
  folly::split('\t', line, fields, true);
  if (fields.empty() || fields.size() > 2) LOG(FATAL) << "Invalid input manifest: " << line;
  int64_t filesize = fields.size() > 1 ? folly::to<int64_t>(fields[1]) : -1;
  req.fileInfo.emplace_back(fields[0], filesize);
}
```

`readManifestLine` is the loop body on one line and `readManifest` the loop; a `LOG(FATAL)` or a
conversion error that nothing catches ends the process, so both are `ManifestError`s.

Because `folly::split` is called with `ignoreEmpty`, a line is not read field by field at each
tab: runs of tabs separate fields, and leading or trailing tabs vanish. The grammar of accepted
lines is `ManifestLine`: a path between two runs of tabs, or a path and a size separated by a
non-empty run of tabs, again between runs of tabs (`readManifestLine_eq_ok_iff`). The main
theorem, `readManifest_eq_ok_iff`, lifts this to the loop: `readManifest` returns exactly when
every line of the stream is a `ManifestLine`, and it then appends one entry per line, in line
order, leaving the rest of the request alone. `readManifest_eq_error_iff` says which error a
failing manifest ends with: that of its first bad line.

`writeManifest` writes a file list in the format's canonical shape: one line per entry, the name
alone for an unknown size, else the name, one tab and the size in decimal.
`readManifest_writeManifest_iff` says that it reads back to the list exactly when every name is
a `ManifestName` (not empty, no tab, no newline), and `readManifest_canonical` that every
manifest `readManifest` accepts reads to the same request as the canonical manifest of its
entries. Written with Windows line ends instead, the same manifest reads every size right, but
every name written without a size keeps the `\r` (`readManifest_writeManifestCrlf`).

`StrictManifestLine` is the format read one tab at a time, a path or a path, one tab and a size;
`readManifest_accepts_leading_tab` shows a line outside it that `readManifest` accepts.
-/

namespace Wdt

open Folly

/-- How `readManifest` ends the process instead of returning. -/
inductive ManifestError
  /-- `LOG(FATAL) << message`. -/
  | fatal (message : String)
  /-- `folly::to<int64_t>` threw on the size field `field`; nothing catches the exception. -/
  | conversion (field : List Char) (e : ConversionError)
  deriving DecidableEq

/-- The body of the loop of `readManifest` on one line: the entry it appends. -/
def readManifestLine (line : List Char) : Except ManifestError WdtFileInfo :=
  let fields := split '\t' line true
  if fields = [] ∨ fields.length > 2 then
    .error (.fatal ("Invalid input manifest: " ++ String.mk line))
  else
    let filesize := if fields.length > 1 then
        (toInt64 (fields.getD 1 [])).mapError (.conversion (fields.getD 1 []))
      else .ok Int64.unknown
    filesize.map fun size => ⟨String.mk (fields.getD 0 []), size⟩

set_option linter.unusedVariables false in
/-- `readManifest(fin, req)`: each line that `std::getline` reads from `fin` appends one entry
to `req.fileInfo`. -/
def readManifest (fin : List Char) (req : WdtTransferRequest) :
    Except ManifestError WdtTransferRequest :=
  match h : getline fin with
  | none => pure req
  | some (line, rest) => do
    let info ← readManifestLine line
    readManifest rest { req with fileInfo := req.fileInfo ++ [info] }
termination_by fin.length
decreasing_by exact getline_rest_length_lt h

/-! ### One line -/

/-- The lines that `readManifestLine` accepts, with the entry each one gives: a path between
two runs of tabs, with size `-1`; or a path and a size field that `folly::to<int64_t>` converts,
separated by a non-empty run of tabs and with runs of tabs around them. -/
inductive ManifestLine : List Char → WdtFileInfo → Prop
  | path {t₀ p t₁ : List Char} :
      IsRun '\t' t₀ → IsField '\t' p → IsRun '\t' t₁ →
      ManifestLine (t₀ ++ p ++ t₁) ⟨String.mk p, Int64.unknown⟩
  | pathSize {t₀ p t₁ s t₂ : List Char} {n : Int64} :
      IsRun '\t' t₀ → IsField '\t' p → IsRun '\t' t₁ → t₁ ≠ [] → IsField '\t' s →
      IsRun '\t' t₂ → toInt64 s = .ok n →
      ManifestLine (t₀ ++ p ++ t₁ ++ s ++ t₂) ⟨String.mk p, n⟩

/-- `readManifestLine` by the number of fields the split leaves. -/
theorem readManifestLine_eq_ok_iff_fields {line : List Char} {info : WdtFileInfo} :
    readManifestLine line = .ok info ↔
      (∃ p, split '\t' line true = [p] ∧ info = ⟨String.mk p, Int64.unknown⟩) ∨
      ∃ p s n, split '\t' line true = [p, s] ∧ toInt64 s = .ok n ∧ info = ⟨String.mk p, n⟩ := by
  unfold readManifestLine
  rcases split '\t' line true with _ | ⟨p, _ | ⟨s, _ | ⟨x, fs⟩⟩⟩
  · simp
  · simp [Except.map, eq_comm]
  · dsimp only
    rw [if_neg (by simp), if_pos (by simp)]
    rcases hs : toInt64 s with ce | n <;> simp [Except.map, Except.mapError, hs, and_assoc, eq_comm]
  · simp

/-- **The line grammar.** `readManifestLine` accepts exactly the `ManifestLine`s, and appends
the entry the grammar assigns. -/
theorem readManifestLine_eq_ok_iff {line : List Char} {info : WdtFileInfo} :
    readManifestLine line = .ok info ↔ ManifestLine line info := by
  rw [readManifestLine_eq_ok_iff_fields]
  constructor
  · rintro (⟨p, hsplit, rfl⟩ | ⟨p, s, n, hps, hn, rfl⟩)
    · obtain ⟨t₀, t₁, ht₀, hp, ht₁, rfl⟩ := split_eq_singleton_iff.mp hsplit
      exact .path ht₀ hp ht₁
    · obtain ⟨t₀, t₁, t₂, ht₀, hp, ht₁, hne, hs, ht₂, rfl⟩ := split_eq_pair_iff.mp hps
      exact .pathSize ht₀ hp ht₁ hne hs ht₂ hn
  · rintro (@⟨t₀, p, t₁, ht₀, hp, ht₁⟩ |
      @⟨t₀, p, t₁, s, t₂, n, ht₀, hp, ht₁, hne, hs, ht₂, hn⟩)
    · exact .inl ⟨p, split_eq_singleton_iff.mpr ⟨t₀, t₁, ht₀, hp, ht₁, rfl⟩, rfl⟩
    · exact .inr ⟨p, s, n,
        split_eq_pair_iff.mpr ⟨t₀, t₁, t₂, ht₀, hp, ht₁, hne, hs, ht₂, rfl⟩, hn, rfl⟩

/-! ### The loop -/

theorem readManifest_of_getline_none {fin : List Char} (h : getline fin = none)
    (req : WdtTransferRequest) : readManifest fin req = .ok req := by
  rw [readManifest]; split <;> simp_all [pure, Except.pure]

theorem readManifest_of_getline_some {fin line rest : List Char}
    (h : getline fin = some (line, rest)) (req : WdtTransferRequest) :
    readManifest fin req = readManifestLine line >>= fun info =>
      readManifest rest { req with fileInfo := req.fileInfo ++ [info] } := by
  rw [readManifest]; split <;> simp_all

/-- The loop by the line-level results: `readManifest` returns exactly when every line is
accepted, and appends their entries in order. -/
theorem readManifest_eq_ok_iff_lines {fin : List Char} {req req' : WdtTransferRequest} :
    readManifest fin req = .ok req' ↔
      ∃ infos, List.Forall₂ (fun line info => readManifestLine line = .ok info) (lines fin) infos ∧
        req' = { req with fileInfo := req.fileInfo ++ infos } := by
  induction fin using lines.induct generalizing req with
  | case1 fin h =>
    rw [readManifest_of_getline_none h, lines_of_getline_none h]
    simp only [List.forall₂_nil_left_iff, exists_eq_left, List.append_nil, Except.ok.injEq]
    exact eq_comm
  | case2 fin line rest h ih =>
    rw [readManifest_of_getline_some h, lines_of_getline_some h]
    cases hl : readManifestLine line with
    | error e => simp [bind, Except.bind, List.forall₂_cons_left_iff, hl]
    | ok info =>
      simp only [bind, Except.bind, ih, List.forall₂_cons_left_iff, hl, Except.ok.injEq]
      constructor
      · rintro ⟨infos, hinfos, rfl⟩
        exact ⟨info :: infos, ⟨info, infos, rfl, hinfos, rfl⟩, by simp⟩
      · rintro ⟨_, ⟨_, infos, rfl, hinfos, rfl⟩, rfl⟩
        exact ⟨infos, hinfos, by simp⟩

/-- **`readManifest`.** It returns exactly when every line that `std::getline` reads is a
`ManifestLine`, and then the file list is its earlier contents followed by one entry per line,
in line order; no other field of the request changes. -/
theorem readManifest_eq_ok_iff {fin : List Char} {req req' : WdtTransferRequest} :
    readManifest fin req = .ok req' ↔
      ∃ infos, List.Forall₂ ManifestLine (lines fin) infos ∧
        req' = { req with fileInfo := req.fileInfo ++ infos } := by
  simp only [readManifest_eq_ok_iff_lines, readManifestLine_eq_ok_iff]

/-- **The first bad line decides.** `readManifest` fails exactly when some line is not a
`ManifestLine` while every line before it is one, and it fails with that line's error. -/
theorem readManifest_eq_error_iff {fin : List Char} {req : WdtTransferRequest}
    {e : ManifestError} :
    readManifest fin req = .error e ↔
      ∃ pre line post, lines fin = pre ++ line :: post ∧ (∀ l ∈ pre, ∃ info, ManifestLine l info) ∧
        readManifestLine line = .error e := by
  induction fin using lines.induct generalizing req with
  | case1 fin h =>
    rw [readManifest_of_getline_none h, lines_of_getline_none h]
    simp
  | case2 fin line rest h ih =>
    rw [readManifest_of_getline_some h, lines_of_getline_some h]
    constructor
    · intro he
      cases hl : readManifestLine line with
      | error e' =>
        obtain rfl : e' = e := by simpa [hl, bind, Except.bind] using he
        exact ⟨[], line, lines rest, rfl, by simp, hl⟩
      | ok info =>
        rw [hl] at he
        obtain ⟨pre, l, post, hpre, hok, hl'⟩ := ih.mp he
        refine ⟨line :: pre, l, post, by rw [hpre]; rfl, ?_, hl'⟩
        simpa [← readManifestLine_eq_ok_iff, hl] using hok
    · rintro ⟨_ | ⟨l, pre⟩, l', post, hlines, hok, he⟩
      · obtain ⟨rfl, rfl⟩ := List.cons.inj hlines
        rw [he]
        rfl
      · obtain ⟨rfl, hrest⟩ := List.cons.inj hlines
        obtain ⟨info, hinfo⟩ := hok line (List.mem_cons_self _ _)
        rw [readManifestLine_eq_ok_iff.mpr hinfo]
        exact ih.mpr ⟨pre, l', post, hrest, fun x hx => hok x (List.mem_cons_of_mem _ hx), he⟩

/-! ### Writing a manifest -/

/-- The names a manifest line can carry: not empty, with no tab (the field separator) and no
newline (the line separator). -/
def ManifestName (name : String) : Prop :=
  name.toList ≠ [] ∧ '\t' ∉ name.toList ∧ '\n' ∉ name.toList

instance (name : String) : Decidable (ManifestName name) :=
  inferInstanceAs (Decidable (_ ∧ _ ∧ _))

/-- The canonical line for one entry: the name alone when the size is unknown, else the name,
one tab and the size in decimal. -/
def writeManifestLine (info : WdtFileInfo) : List Char :=
  if info.fileSize = Int64.unknown then info.fileName.toList
  else info.fileName.toList ++ '\t' :: toDecimal info.fileSize

/-- A manifest listing `infos`, one canonical line each. -/
def writeManifest (infos : List WdtFileInfo) : List Char :=
  unlines (infos.map writeManifestLine)

theorem ManifestName.isField {name : String} (h : ManifestName name) :
    IsField '\t' name.toList :=
  ⟨h.1, fun _ hc hct => h.2.1 (hct ▸ hc)⟩

theorem newline_not_mem_writeManifestLine {info : WdtFileInfo} (h : ManifestName info.fileName) :
    '\n' ∉ writeManifestLine info := by
  have hdec : '\n' ∉ toDecimal info.fileSize := not_mem_toDecimal (by decide) (by decide)
  unfold writeManifestLine
  split_ifs
  · exact h.2.2
  · simp only [List.mem_append, List.mem_cons, not_or]
    exact ⟨h.2.2, by decide, hdec⟩

theorem readManifestLine_writeManifestLine {info : WdtFileInfo} (h : ManifestName info.fileName) :
    readManifestLine (writeManifestLine info) = .ok info := by
  obtain ⟨⟨name⟩, size⟩ := info
  have hp := h.isField
  rw [readManifestLine_eq_ok_iff_fields, writeManifestLine]
  split_ifs with hs
  · exact .inl ⟨name, split_field hp, by simpa using hs⟩
  · have hdec : IsField '\t' (toDecimal size) := ⟨toDecimal_ne_nil size,
      fun _ hc hct => not_mem_toDecimal (c := '\t') (by decide) (by decide) (hct ▸ hc)⟩
    have hsplit :=
      split_append_field (t := []) (fun _ h => absurd h (List.not_mem_nil _)) hp (toDecimal size)
    rw [List.nil_append, split_field hdec] at hsplit
    exact .inr ⟨name, toDecimal size, size, hsplit, toInt64_toDecimal size, rfl⟩

theorem lines_writeManifest {infos : List WdtFileInfo}
    (h : ∀ info ∈ infos, ManifestName info.fileName) :
    lines (writeManifest infos) = infos.map writeManifestLine := by
  refine lines_unlines fun l hl => ?_
  obtain ⟨info, hi, rfl⟩ := List.mem_map.mp hl
  exact newline_not_mem_writeManifestLine (h info hi)

/-- The canonical manifest of entries with `ManifestName`s reads back to those entries. -/
theorem readManifest_writeManifest {infos : List WdtFileInfo}
    (h : ∀ info ∈ infos, ManifestName info.fileName) (req : WdtTransferRequest) :
    readManifest (writeManifest infos) req = .ok { req with fileInfo := req.fileInfo ++ infos } := by
  refine readManifest_eq_ok_iff_lines.mpr ⟨infos, ?_, rfl⟩
  rw [lines_writeManifest h, List.forall₂_map_left_iff]
  exact List.forall₂_same.mpr fun info hi => readManifestLine_writeManifestLine (h info hi)

/-- The name of an accepted line with no newline in it is a `ManifestName`. -/
theorem ManifestLine.manifestName {line : List Char} {info : WdtFileInfo}
    (h : ManifestLine line info) (hn : '\n' ∉ line) : ManifestName info.fileName := by
  cases h with
  | path _ hp _ =>
    exact ⟨hp.1, fun hc => hp.2 _ hc rfl,
      fun hc => hn (List.mem_append_left _ (List.mem_append_right _ hc))⟩
  | pathSize _ hp _ _ _ _ _ =>
    exact ⟨hp.1, fun hc => hp.2 _ hc rfl, fun hc => hn (List.mem_append_left _
      (List.mem_append_left _ (List.mem_append_left _ (List.mem_append_right _ hc))))⟩

/-- Every entry that `readManifest` appends has a `ManifestName`. -/
theorem readManifest_names {fin : List Char} {req req' : WdtTransferRequest}
    (h : readManifest fin req = .ok req') :
    ∃ infos, (∀ info ∈ infos, ManifestName info.fileName) ∧
      req' = { req with fileInfo := req.fileInfo ++ infos } := by
  obtain ⟨infos, hinfos, rfl⟩ := readManifest_eq_ok_iff_lines.mp h
  have hboth := (List.forall₂_and_left _ _).mpr
    ⟨fun l hl => newline_not_mem_of_mem_lines hl, hinfos⟩
  have hflip := List.Forall₂.flip (R := fun info line =>
      ManifestName info.fileName ∧ readManifestLine line = .ok info)
    (hboth.imp fun _ _ ⟨hn, hl⟩ => ⟨(readManifestLine_eq_ok_iff.mp hl).manifestName hn, hl⟩)
  exact ⟨infos, ((List.forall₂_and_left _ _).mp hflip).1, rfl⟩

/-- **Writing a manifest.** The canonical manifest of a file list reads back to that list
exactly when every name in it is a `ManifestName`. -/
theorem readManifest_writeManifest_iff {infos : List WdtFileInfo} {req : WdtTransferRequest} :
    readManifest (writeManifest infos) req = .ok { req with fileInfo := req.fileInfo ++ infos } ↔
      ∀ info ∈ infos, ManifestName info.fileName := by
  refine ⟨fun h => ?_, fun h => readManifest_writeManifest h req⟩
  obtain ⟨infos', hnames, heq⟩ := readManifest_names h
  have : infos = infos' := List.append_cancel_left (congrArg WdtTransferRequest.fileInfo heq)
  exact this ▸ hnames

/-- **Canonical form.** Every manifest that `readManifest` accepts reads to the same request as
the canonical manifest of the entries it lists. -/
theorem readManifest_canonical {fin : List Char} {req req' : WdtTransferRequest}
    (h : readManifest fin req = .ok req') :
    ∃ infos, (∀ info ∈ infos, ManifestName info.fileName) ∧
      readManifest (writeManifest infos) req = .ok req' := by
  obtain ⟨infos, hnames, rfl⟩ := readManifest_names h
  exact ⟨infos, hnames, readManifest_writeManifest hnames req⟩

theorem readManifest_canonical_tabs :
    readManifest "a\t\t+5 \n".toList default =
        .ok { (default : WdtTransferRequest) with fileInfo := [⟨"a", ⟨5, by decide, by decide⟩⟩] } ∧
      ∃ infos, (∀ info ∈ infos, ManifestName info.fileName) ∧
        readManifest (writeManifest infos) default =
          .ok { (default : WdtTransferRequest) with fileInfo := [⟨"a", ⟨5, by decide, by decide⟩⟩] } := by
  have h : readManifest "a\t\t+5 \n".toList default =
      .ok { (default : WdtTransferRequest) with fileInfo := [⟨"a", ⟨5, by decide, by decide⟩⟩] } := by
    rw [readManifest_of_getline_some
        (show getline "a\t\t+5 \n".toList = some ("a\t\t+5 ".toList, []) from rfl),
      show readManifestLine "a\t\t+5 ".toList = .ok ⟨"a", ⟨5, by decide, by decide⟩⟩ from rfl]
    exact readManifest_of_getline_none (show getline [] = none from rfl) _
  exact ⟨h, readManifest_canonical h⟩

/-! ### Manifests with Windows line ends -/

/-- A canonical line with a Windows line end; `std::getline` stops at the `\n` and leaves the
`\r` on the line. -/
def writeManifestLineCrlf (info : WdtFileInfo) : List Char := writeManifestLine info ++ ['\r']

/-- A manifest listing `infos`, one canonical line each, with `\r\n` line ends. -/
def writeManifestCrlf (infos : List WdtFileInfo) : List Char :=
  unlines (infos.map writeManifestLineCrlf)

/-- The entry `readManifest` makes of a line written with a Windows line end: a size field
absorbs the `\r` as trailing white space, but a name written alone keeps it. -/
def crlfEntry (info : WdtFileInfo) : WdtFileInfo :=
  if info.fileSize = Int64.unknown then ⟨info.fileName.push '\r', Int64.unknown⟩ else info

theorem readManifestLine_writeManifestLineCrlf {info : WdtFileInfo}
    (h : ManifestName info.fileName) :
    readManifestLine (writeManifestLineCrlf info) = .ok (crlfEntry info) := by
  obtain ⟨⟨name⟩, size⟩ := info
  have hp := h.isField
  have hcr : IsField '\t' ['\r'] := ⟨List.cons_ne_nil _ _, by decide⟩
  rw [readManifestLine_eq_ok_iff_fields, writeManifestLineCrlf, writeManifestLine, crlfEntry]
  split_ifs with hs
  · -- the name and the `\r` make one field
    have hf : IsField '\t' (name ++ ['\r']) :=
      ⟨by simp, List.forall_mem_append.mpr ⟨hp.2, hcr.2⟩⟩
    exact .inl ⟨_, split_field hf, rfl⟩
  · -- the `\r` ends the size field
    have hdec : IsField '\t' (toDecimal size ++ ['\r']) := ⟨by simp,
      List.forall_mem_append.mpr ⟨fun _ hc hct =>
        not_mem_toDecimal (c := '\t') (by decide) (by decide) (hct ▸ hc), hcr.2⟩⟩
    have hsplit := split_append_field (t := []) (fun _ h => absurd h (List.not_mem_nil _)) hp
      (toDecimal size ++ ['\r'])
    rw [List.nil_append, split_field hdec] at hsplit
    exact .inr ⟨name, toDecimal size ++ ['\r'], size, by simpa using hsplit,
      toInt64_toDecimal_append (by decide) size, rfl⟩

theorem newline_not_mem_writeManifestLineCrlf {info : WdtFileInfo}
    (h : ManifestName info.fileName) : '\n' ∉ writeManifestLineCrlf info := by
  simpa [writeManifestLineCrlf] using newline_not_mem_writeManifestLine h

/-- **Windows line ends.** A manifest written with `\r\n` line ends reads every size right,
since `folly::to<int64_t>` takes the `\r` for trailing white space, but every name written
without a size keeps the `\r`: `readManifest` lists a file whose name ends in a carriage
return. -/
theorem readManifest_writeManifestCrlf {infos : List WdtFileInfo}
    (h : ∀ info ∈ infos, ManifestName info.fileName) (req : WdtTransferRequest) :
    readManifest (writeManifestCrlf infos) req =
      .ok { req with fileInfo := req.fileInfo ++ infos.map crlfEntry } := by
  refine readManifest_eq_ok_iff_lines.mpr ⟨infos.map crlfEntry, ?_, rfl⟩
  have hlines : lines (writeManifestCrlf infos) = infos.map writeManifestLineCrlf := by
    refine lines_unlines fun l hl => ?_
    obtain ⟨info, hi, rfl⟩ := List.mem_map.mp hl
    exact newline_not_mem_writeManifestLineCrlf (h info hi)
  rw [hlines, List.forall₂_map_left_iff, List.forall₂_map_right_iff]
  exact List.forall₂_same.mpr fun info hi => readManifestLine_writeManifestLineCrlf (h info hi)

theorem readManifest_writeManifestCrlf_two :
    (∀ info ∈ [(⟨"a", Int64.unknown⟩ : WdtFileInfo), ⟨"b", ⟨5, by decide, by decide⟩⟩],
        ManifestName info.fileName) ∧
      readManifest (writeManifestCrlf [⟨"a", Int64.unknown⟩, ⟨"b", ⟨5, by decide, by decide⟩⟩])
          default =
        .ok { (default : WdtTransferRequest) with
          fileInfo := [⟨"a\r", Int64.unknown⟩, ⟨"b", ⟨5, by decide, by decide⟩⟩] } :=
  ⟨by decide, readManifest_writeManifestCrlf (by decide) default⟩

/-! ### The format read one tab at a time -/

/-- The manifest format read tab by tab: a non-empty, tab-free path alone, or such a path,
exactly one tab, and a tab-free size field that `folly::to<int64_t>` converts. -/
inductive StrictManifestLine : List Char → WdtFileInfo → Prop
  | path {p : List Char} : IsField '\t' p → StrictManifestLine p ⟨String.mk p, Int64.unknown⟩
  | pathSize {p s : List Char} {n : Int64} :
      IsField '\t' p → (∀ c ∈ s, c ≠ '\t') → toInt64 s = .ok n →
      StrictManifestLine (p ++ '\t' :: s) ⟨String.mk p, n⟩

/-- The line `"\t123"` has an empty path field, so it is no `StrictManifestLine`; yet
`readManifest` accepts it, since the split drops the empty field: `123` becomes the path of a
file of unknown size. -/
theorem readManifest_accepts_leading_tab :
    (¬ ∃ info, StrictManifestLine "\t123".toList info) ∧
      readManifest "\t123\n".toList ⟨"", 0, "", ".", [], .OK⟩ =
        .ok ⟨"", 0, "", ".", [⟨"123", Int64.unknown⟩], .OK⟩ := by
  constructor
  · rintro ⟨info, h⟩
    generalize hl : "\t123".toList = l at h
    cases h with
    | path hp => exact hp.2 '\t' (by rw [← hl]; decide) rfl
    | pathSize hp _ _ =>
      obtain ⟨c, p, rfl⟩ := List.exists_cons_of_ne_nil hp.1
      obtain ⟨rfl, -⟩ := List.cons.inj hl
      exact hp.2 _ (List.mem_cons_self _ _) rfl
  · rw [readManifest_of_getline_some
      (show getline "\t123\n".toList = some ("\t123".toList, []) from rfl),
      show readManifestLine "\t123".toList = .ok ⟨"123", Int64.unknown⟩ from rfl]
    exact readManifest_of_getline_none (show getline [] = none from rfl) _

end Wdt
