import Mathlib.Data.List.DropRight
import TabularQuery.Proofs.DelimitedLines
import TabularQuery.Proofs.FailedReads

/-!
Delimited files as tables. The columns are read off the first line that is not skipped and the rows off those after it,
each in a walk of its own through the file. The two agree: whenever a file that is text has columns, its rows are the
data lines in their order, split and filled up to the number of columns, unless one of these lines is too wide. So a
table that is written with every field between quotes is read back as it was.
-/

namespace TabularQuery

/-! ### Lines of a text -/

namespace Files

/-- Puts something before the first of some lines. -/
def startLine {α : Type} (start : List α) : List (List α) → List (List α)
  | [] => [start]
  | line :: lines => (start ++ line) :: lines

/-- The lines of some characters, without their line feeds; a last line need not have one. -/
def lineChars : List Char → List (List Char)
  | [] => []
  | c :: cs => if c = '\n' then [] :: lineChars cs else startLine [c] (lineChars cs)

/-- The lines of a text. -/
def textLines (text : String) : List String := (lineChars text.toList).map String.ofList

theorem splitLines_cons {b : UInt8} (hb : b ≠ 10) (bs : List UInt8) :
    splitLines (b :: bs) = startLine [b] (splitLines bs) := by
  rw [splitLines, if_neg hb]
  cases splitLines bs <;> rfl

/-- Bytes without a line feed begin the first of the lines that follow. -/
theorem splitLines_append {start : List UInt8} (hsome : start ≠ []) (hfeed : 10 ∉ start) (bs : List UInt8) :
    splitLines (start ++ bs) = startLine start (splitLines bs) := by
  induction start with
  | nil => exact absurd rfl hsome
  | cons b start ih =>
    simp only [List.mem_cons, not_or] at hfeed
    rw [List.cons_append, splitLines_cons (Ne.symm hfeed.1)]
    cases start with
    | nil => rfl
    | cons b' start =>
      rw [ih (List.cons_ne_nil _ _) hfeed.2]
      cases splitLines bs <;> rfl

theorem feed_not_mem_utf8EncodeChar {c : Char} (hc : c ≠ '\n') : 10 ∉ String.utf8EncodeChar c := by
  have hvalue : c.val.toNat ≠ 10 := fun h => hc (Char.ext (UInt32.toNat_inj.mp h))
  have hbyte (n : Nat) (hn : n % 256 ≠ 10) : (10 : UInt8) ≠ UInt8.ofNat n := by
    intro h
    exact hn (by simpa using (congrArg UInt8.toNat h).symm)
  unfold String.utf8EncodeChar
  dsimp only
  -- one case for each number of bytes; all bytes of a longer character are above 127
  split_ifs <;> simp only [List.mem_cons, List.not_mem_nil, or_false, not_or]
  · exact hbyte _ (by omega)
  · exact ⟨hbyte _ (by omega), hbyte _ (by omega)⟩
  · exact ⟨hbyte _ (by omega), hbyte _ (by omega), hbyte _ (by omega)⟩
  · exact ⟨hbyte _ (by omega), hbyte _ (by omega), hbyte _ (by omega), hbyte _ (by omega)⟩

/-- To split the bytes of a text at line feeds is to split its characters there. -/
theorem splitLines_utf8 (cs : List Char) :
    splitLines (cs.flatMap String.utf8EncodeChar) = (lineChars cs).map (·.flatMap String.utf8EncodeChar) := by
  induction cs with
  | nil => rfl
  | cons c cs ih =>
    rw [List.flatMap_cons, lineChars]
    by_cases hc : c = '\n'
    · have hbytes : String.utf8EncodeChar c = [10] := by rw [hc]; decide
      rw [hbytes, List.singleton_append, splitLines, if_pos rfl, if_pos hc, ih]
      rfl
    · rw [if_neg hc, splitLines_append String.utf8EncodeChar_ne_nil (feed_not_mem_utf8EncodeChar hc), ih]
      cases lineChars cs <;> simp [startLine]

theorem fromUTF8?_utf8 (cs : List Char) :
    String.fromUTF8? (cs.flatMap String.utf8EncodeChar).toByteArray = some (String.ofList cs) := by
  have hvalid : (cs.flatMap String.utf8EncodeChar).toByteArray.IsValidUTF8 := ⟨cs, rfl⟩
  rw [String.fromUTF8?, dif_pos hvalid]
  rfl

theorem fromUTF8?_toList (text : String) :
    String.fromUTF8? (text.toList.flatMap String.utf8EncodeChar).toByteArray = some text :=
  (fromUTF8?_utf8 text.toList).trans (congrArg some String.ofList_toList)

theorem eq_utf8_of_fromUTF8? {content : List UInt8} {text : String}
    (h : String.fromUTF8? content.toByteArray = some text) : content = text.toList.flatMap String.utf8EncodeChar := by
  rw [String.fromUTF8?] at h
  split at h
  · obtain rfl := Option.some.inj h
    exact List.toByteArray_inj.mp (String.utf8Encode_toList (b := String.fromUTF8 _ _)).symm
  · cases h

theorem lines_eq {content : List UInt8} {text : String} (h : String.fromUTF8? content.toByteArray = some text) :
    lines content = (textLines text).map some := by
  rw [lines, eq_utf8_of_fromUTF8? h, splitLines_utf8, textLines, List.map_map, List.map_map]
  exact List.map_congr_left fun line _ => fromUTF8?_utf8 line

theorem lineChars_append {line : List Char} (hfeed : '\n' ∉ line) (cs : List Char) :
    lineChars (line ++ '\n' :: cs) = line :: lineChars cs := by
  induction line with
  | nil => simp [lineChars]
  | cons c line ih =>
    simp only [List.mem_cons, not_or] at hfeed
    rw [List.cons_append, lineChars, if_neg (Ne.symm hfeed.1), ih hfeed.2]
    rfl

theorem lineChars_last {line : List Char} (hsome : line ≠ []) (hfeed : '\n' ∉ line) : lineChars line = [line] := by
  induction line with
  | nil => exact absurd rfl hsome
  | cons c line ih =>
    simp only [List.mem_cons, not_or] at hfeed
    rw [lineChars, if_neg (Ne.symm hfeed.1)]
    cases line with
    | nil => rfl
    | cons c' line => rw [ih (List.cons_ne_nil _ _) hfeed.2]; rfl

/-- Lines that are joined by line feeds are found again, with one more line feed at the end or without it, if the last
of them is not empty. -/
theorem lineChars_intercalate {lines : List (List Char)} {ending : List Char} (hsome : lines ≠ [])
    (hfeed : ∀ line ∈ lines, '\n' ∉ line) (hlast : lines.getLast? ≠ some []) (hending : ending = [] ∨ ending = ['\n']) :
    lineChars (['\n'].intercalate lines ++ ending) = lines := by
  induction lines with
  | nil => exact absurd rfl hsome
  | cons line lines ih =>
    have hline : '\n' ∉ line := hfeed line List.mem_cons_self
    cases lines with
    | nil =>
      have hne : line ≠ [] := by simpa using hlast
      obtain rfl | rfl := hending
      · simpa using lineChars_last hne hline
      · simpa [lineChars] using lineChars_append hline []
    | cons next lines =>
      rw [List.intercalate_cons_cons, List.append_assoc, List.append_assoc, List.singleton_append,
        lineChars_append hline, ih (List.cons_ne_nil _ _) (fun l hl => hfeed l (List.mem_cons_of_mem _ hl))]
      simpa using hlast

theorem textLines_intercalate {lines : List String} {ending : String} (hsome : lines ≠ [])
    (hfeed : ∀ line ∈ lines, '\n' ∉ line.toList) (hlast : lines.getLast? ≠ some "")
    (hending : ending = "" ∨ ending = "\n") : textLines ("\n".intercalate lines ++ ending) = lines := by
  have hlast' : (lines.map String.toList).getLast? ≠ some [] := by
    rw [List.getLast?_map]
    intro h
    obtain ⟨line, hline, hempty⟩ := Option.map_eq_some_iff.mp h
    exact hlast (by rw [hline, String.toList_eq_nil_iff.mp hempty])
  have hending' : ending.toList = [] ∨ ending.toList = ['\n'] := by
    obtain rfl | rfl := hending
    · exact .inl rfl
    · exact .inr (by decide)
  have hjoined : ("\n".intercalate lines ++ ending).toList =
      ['\n'].intercalate (lines.map String.toList) ++ ending.toList := by
    rw [String.toList_append, String.toList_intercalate]
    rfl
  rw [textLines, hjoined, lineChars_intercalate (by simpa using hsome) (by simpa using hfeed) hlast' hending',
    List.map_map]
  exact List.map_id'' (fun line => String.ofList_toList) lines

end Files

/-- Reading from the front brings these rows and failures, and then no more. -/
def RowSource.Brings (source : RowSource) (items : List (Except Error SourceRow)) : Prop :=
  ∀ n, source.pulls n = (List.range n).map fun i => items[i]?

theorem Reader.brings_complete (names : List String) (chunkSize : Nat) (rows : List (List Value)) :
    (source names chunkSize ⟨rows, none⟩).Brings (rows.map fun row => .ok (.positional names row)) := by
  intro n
  rw [RowSource.pulls_eq (quiet_source _ _ _), items_source, messages, items_messages, List.nil_append, List.map_map]
  rfl

theorem Reader.brings_failure (names : List String) (chunkSize : Nat) (rows : List (List Value)) (e : Error) :
    (source names chunkSize ⟨rows, some e⟩).Brings
      ((rows.take (fullRows chunkSize rows.length)).map (fun row => Except.ok (.positional names row)) ++ [Except.error e]) := by
  intro n
  rw [RowSource.pulls_eq (quiet_source _ _ _), items_source, items_failure, List.map_append, List.map_map]
  rfl

namespace Delimited

/-! ### Names of columns -/

/-- A line without the carriage returns at its end. -/
def withoutReturns (line : String) : String := String.ofList (line.toList.rdropWhile (· = '\r'))

theorem dropReturns_eq (line : String) : Files.dropReturns line = withoutReturns line := rfl

section Names

variable {path : String} {seen fields names : List String}

theorem numbered_ne_empty (i : Nat) : numbered i ≠ "" := by
  intro h
  have hsize := congrArg String.utf8ByteSize h
  simp [numbered] at hsize

theorem numbered_injective : Function.Injective numbered := by
  intro i j h
  simpa [numbered] using h

theorem headerNames_valid (h : headerNames path seen fields = .ok names) (hne : "" ∉ seen) (hnodup : seen.Nodup) :
    "" ∉ names ∧ names.Nodup := by
  fun_induction headerNames path seen fields with
  | case1 seen =>
    cases h
    exact ⟨hne, hnodup⟩
  | case2 seen field fields trimmed name hseen => cases h
  | case3 seen field fields trimmed name hseen ih =>
    have hname : name ≠ "" := by
      unfold name
      split
      · exact numbered_ne_empty _
      · assumption
    refine ih h ?_ ?_
    · simpa [hne] using hname.symm
    · rw [← List.concat_eq_append, List.nodup_concat]
      exact ⟨hseen, hnodup⟩

theorem headerNames_eq (htrim : ∀ name ∈ fields, name ≠ "" ∧ Text.trim name = name) (hnodup : (seen ++ fields).Nodup) :
    headerNames path seen fields = .ok (seen ++ fields) := by
  induction fields generalizing seen with
  | nil => rw [headerNames, List.append_nil]
  | cons field fields ih =>
    obtain ⟨hne, htrimmed⟩ := htrim field List.mem_cons_self
    have hseen : field ∉ seen := by
      intro hmem
      exact (List.nodup_append.mp hnodup).2.2 field hmem field List.mem_cons_self rfl
    rw [headerNames]
    simp only [htrimmed, if_neg hne, if_neg hseen]
    rw [ih (fun name hname => htrim name (List.mem_cons_of_mem _ hname)) (by simpa using hnodup)]
    simp

theorem length_headerNames (h : headerNames path seen fields = .ok names) :
    names.length = seen.length + fields.length := by
  fun_induction headerNames path seen fields with
  | case1 seen =>
    cases h
    rfl
  | case2 seen field fields trimmed name hseen => cases h
  | case3 seen field fields trimmed name hseen ih =>
    rw [ih h, List.length_append, List.length_singleton, List.length_cons, Nat.add_assoc, Nat.add_comm 1]

theorem length_columnNames {o : Options} {content : List UInt8} {text : String}
    (htext : String.fromUTF8? content.toByteArray = some text) (h : columnNames o (.file content) = .ok names) :
    ∃ line rest, (Files.textLines text).drop o.skipLines = line :: rest ∧
      names.length = (splitLine o.separator (withoutReturns line)).length := by
  rw [columnNames, Files.lines_eq htext, ← List.map_drop] at h
  cases hlines : (Files.textLines text).drop o.skipLines with
  | nil =>
    rw [hlines] at h
    cases h
  | cons line rest =>
    simp only [hlines, List.map_cons, dropReturns_eq] at h
    refine ⟨line, rest, rfl, ?_⟩
    split at h
    · rw [length_headerNames h, List.length_nil, Nat.zero_add]
    · obtain rfl := Except.ok.inj h
      rw [List.length_map, List.length_range]

theorem columnNames_valid {o : Options} {node : FileNode} (h : columnNames o node = .ok names) :
    "" ∉ names ∧ names.Nodup := by
  unfold columnNames at h
  split at h
  · cases h
  · split at h
    · cases h
    · cases h
    · dsimp only at h
      split at h
      · exact headerNames_valid h List.not_mem_nil List.nodup_nil
      · obtain rfl := Except.ok.inj h
        refine ⟨?_, ?_⟩
        · simpa using fun i _ => numbered_ne_empty (i + 1)
        · exact List.Nodup.map (fun i j hij => Nat.succ.inj (numbered_injective hij)) List.nodup_range

end Names

/-! ### Rows -/

/-- The lines of which something is left. -/
def filledLines (raws : List String) : List String := (raws.map withoutReturns).filter (· ≠ "")

/-- The lines that give rows: those after the skipped ones and the header. -/
def dataLines (o : Options) (text : String) : List String :=
  filledLines ((Files.textLines text).drop (if o.hasHeader then o.skipLines + 1 else o.skipLines))

/-- The line has no more fields than there are columns. -/
def Options.fits (o : Options) (width : Nat) (line : String) : Bool := (splitLine o.separator line).length ≤ width

/-- The fields of a line, filled up with empty ones. -/
def Options.row (o : Options) (width : Nat) (line : String) : List Value :=
  (splitLine o.separator line ++ List.replicate (width - (splitLine o.separator line).length) "").map .text

section Rows

variable {o : Options} {width : Nat} {raw line : String} {raws : List String}

theorem filledLines_eq (raws : List String) : filledLines raws = (raws.map Files.dropReturns).filter (· ≠ "") := rfl

theorem dataLines_preamble (o : Options) (text : String) :
    dataLines o text = filledLines ((Files.textLines text).drop o.preamble) := by
  rw [dataLines, Options.preamble]
  split <;> rfl

theorem filledLines_cons_empty (h : Files.dropReturns raw = "") : filledLines (raw :: raws) = filledLines raws := by
  simp [filledLines_eq, h]

theorem filledLines_cons (h : Files.dropReturns raw ≠ "") :
    filledLines (raw :: raws) = Files.dropReturns raw :: filledLines raws := by
  simp [filledLines_eq, h]

theorem length_row (h : o.fits width line) : (o.row width line).length = width := by
  have hle : (splitLine o.separator line).length ≤ width := by simpa [Options.fits] using h
  simp only [Options.row, List.length_map, List.length_append, List.length_replicate]
  omega

theorem production_cons_empty (number : Nat) (rest : List (Option String)) (h : Files.dropReturns raw = "") :
    production o width number (some raw :: rest) = production o width (number + 1) rest := by
  simp [production, h]

theorem production_cons_fits (number : Nat) (rest : List (Option String)) (hsome : Files.dropReturns raw ≠ "")
    (h : o.fits width (Files.dropReturns raw)) :
    production o width number (some raw :: rest) =
      .cons (o.row width (Files.dropReturns raw)) (production o width (number + 1) rest) := by
  have hle : ¬ width < (splitLine o.separator (Files.dropReturns raw)).length := by simpa [Options.fits] using h
  simp [production, hsome, hle, Options.row]

/-- Lines that all fit give one row each, but for the empty ones. -/
theorem production_fits (number : Nat) (h : ∀ line ∈ filledLines raws, o.fits width line) :
    production o width number (raws.map some) = ⟨(filledLines raws).map (o.row width), none⟩ := by
  induction raws generalizing number with
  | nil => rfl
  | cons raw raws ih =>
    rw [List.map_cons]
    by_cases hempty : Files.dropReturns raw = ""
    · rw [filledLines_cons_empty hempty] at h ⊢
      rw [production_cons_empty _ _ hempty, ih _ h]
    · rw [filledLines_cons hempty] at h ⊢
      rw [production_cons_fits _ _ hempty (h _ List.mem_cons_self), ih _ fun l hl => h l (List.mem_cons_of_mem _ hl)]
      rfl

/-- The first line that does not fit ends the rows. -/
theorem production_tooWide (number : Nat) (h : ∃ line ∈ filledLines raws, ¬ o.fits width line) :
    ∃ place count, width < count ∧ production o width number (raws.map some) =
      ⟨((filledLines raws).takeWhile (o.fits width)).map (o.row width),
        some (.lineTooWide place o.path count width)⟩ := by
  induction raws generalizing number with
  | nil => simp [filledLines_eq] at h
  | cons raw raws ih =>
    rw [List.map_cons]
    by_cases hempty : Files.dropReturns raw = ""
    · rw [filledLines_cons_empty hempty] at h ⊢
      rw [production_cons_empty _ _ hempty]
      exact ih _ h
    · rw [filledLines_cons hempty] at h ⊢
      by_cases hfits : o.fits width (Files.dropReturns raw)
      · have hlater : ∃ line ∈ filledLines raws, ¬ o.fits width line := by
          obtain ⟨line, hline, hwide⟩ := h
          obtain rfl | hline := List.mem_cons.mp hline
          · exact absurd hfits hwide
          · exact ⟨line, hline, hwide⟩
        obtain ⟨place, count, hcount, hproduction⟩ := ih (number + 1) hlater
        refine ⟨place, count, hcount, ?_⟩
        rw [production_cons_fits _ _ hempty hfits, hproduction, List.takeWhile_cons_of_pos hfits]
        rfl
      · have hlt : width < (splitLine o.separator (Files.dropReturns raw)).length := by
          simpa [Options.fits] using hfits
        refine ⟨number, _, hlt, ?_⟩
        simp [production, hempty, hlt, hfits, Production.fail]

end Rows

/-! ### Columns and rows of one file -/

/-- The data lines before the first one that does not fit. -/
def before (o : Options) (text : String) (width : Nat) : List String := (dataLines o text).takeWhile (o.fits width)

/-- The columns and the rows that a delimited text has. There are as many columns as fields in the first line that is
not skipped. Where every data line fits, there is one row for each of them, and otherwise for those before the first
one that does not, as far as they are in full chunks, with a failure at the end. -/
structure Shows (o : Options) (text : String) (chunkSize : Nat) (columns : List Column) (source : RowSource) :
    Prop where
  named : ∀ column ∈ columns, column.name ≠ "" ∧ column.type = .text
  distinct : (columns.map Column.name).Nodup
  counted : ∃ line rest, (Files.textLines text).drop o.skipLines = line :: rest ∧
    columns.length = (splitLine o.separator (withoutReturns line)).length
  width : ∀ line, o.fits columns.length line → (o.row columns.length line).length = columns.length
  complete : (∀ line ∈ dataLines o text, o.fits columns.length line) →
    source.Brings ((dataLines o text).map fun line =>
      .ok (.positional (columns.map Column.name) (o.row columns.length line)))
  tooWide : (∃ line ∈ dataLines o text, ¬ o.fits columns.length line) →
    ∃ e, e.code = .source ∧ (∃ place count, columns.length < count ∧
      e = .lineTooWide place o.path count columns.length) ∧ source.Brings
      (((before o text columns.length).take (Reader.fullRows chunkSize (before o text columns.length).length)).map
        (fun line => .ok (.positional (columns.map Column.name) (o.row columns.length line))) ++ [.error e])

section Tables

variable {context : SourceContext} {method : String} {arguments : List Value} {o : Options} {content : List UInt8}
  {text : String} {names : List String}

theorem openFile_eq {files : Files} (hopen : files.open? o.path = .ok (.file content)) :
    openFile files o.path = .ok (.file content) := by
  rw [openFile, hopen]
  rfl

theorem columns_eq_ok_iff {files : Files} {columns : List Column} (ho : options method arguments = .ok o)
    (hopen : files.open? o.path = .ok (.file content)) :
    schema.columns files method arguments = .ok columns ↔
      ∃ names, columnNames o (.file content) = .ok names ∧ columns = names.map fun name => ⟨name, .text⟩ := by
  constructor
  · intro h
    obtain ⟨o', ho', h⟩ := except_bind_eq_ok.mp h
    obtain rfl := Except.ok.inj (ho.symm.trans ho')
    obtain ⟨node, hnode, h⟩ := except_bind_eq_ok.mp h
    obtain rfl := Except.ok.inj ((openFile_eq hopen).symm.trans hnode)
    obtain ⟨names, hnames, h⟩ := except_bind_eq_ok.mp h
    exact ⟨names, hnames, (Except.ok.inj h).symm⟩
  · rintro ⟨names, hnames, rfl⟩
    exact except_bind_eq_ok.mpr ⟨o, ho, except_bind_eq_ok.mpr ⟨_, openFile_eq hopen,
      except_bind_eq_ok.mpr ⟨names, hnames, rfl⟩⟩⟩

theorem rows_eq (ho : options method arguments = .ok o) (hopen : context.files.open? o.path = .ok (.file content))
    (hnames : columnNames o (.file content) = .ok names) :
    schema.rows context method arguments =
      .ok (Reader.source names context.chunkSize (rows o (.file content) names.length)) :=
  except_bind_eq_ok.mpr ⟨o, ho, except_bind_eq_ok.mpr ⟨_, openFile_eq hopen,
    except_bind_eq_ok.mpr ⟨names, hnames, rfl⟩⟩⟩

theorem rows_text (htext : String.fromUTF8? content.toByteArray = some text) (width : Nat) :
    rows o (.file content) width =
      production o width (o.preamble + 1) (((Files.textLines text).drop o.preamble).map some) := by
  rw [rows, Files.lines_eq htext, List.map_drop]

theorem rows_fits {width : Nat} (htext : String.fromUTF8? content.toByteArray = some text)
    (h : ∀ line ∈ dataLines o text, o.fits width line) :
    rows o (.file content) width = ⟨(dataLines o text).map (o.row width), none⟩ := by
  rw [dataLines_preamble] at h ⊢
  rw [rows_text htext, production_fits _ h]

theorem rows_tooWide {width : Nat} (htext : String.fromUTF8? content.toByteArray = some text)
    (h : ∃ line ∈ dataLines o text, ¬ o.fits width line) :
    ∃ place count, width < count ∧ rows o (.file content) width =
      ⟨(before o text width).map (o.row width), some (.lineTooWide place o.path count width)⟩ := by
  rw [before]
  rw [dataLines_preamble] at h ⊢
  rw [rows_text htext]
  exact production_tooWide _ h

theorem shows_source (htext : String.fromUTF8? content.toByteArray = some text)
    (hnames : columnNames o (.file content) = .ok names) (chunkSize : Nat) :
    Shows o text chunkSize (names.map fun name => ⟨name, .text⟩)
      (Reader.source names chunkSize (rows o (.file content) names.length)) := by
  obtain ⟨hne, hnodup⟩ := columnNames_valid hnames
  have hcolumns : (names.map fun name => (⟨name, .text⟩ : Column)).map Column.name = names := by
    rw [List.map_map]
    exact List.map_id names
  refine ⟨?_, ?_, ?_, fun line => length_row, ?_, ?_⟩
  · intro column hcolumn
    obtain ⟨name, hname, rfl⟩ := List.mem_map.mp hcolumn
    exact ⟨fun hempty => hne (hempty ▸ hname), rfl⟩
  · rwa [hcolumns]
  · rw [List.length_map]
    exact length_columnNames htext hnames
  · rw [hcolumns, List.length_map]
    intro hfits
    have hbrings := Reader.brings_complete names chunkSize ((dataLines o text).map (o.row names.length))
    rw [List.map_map] at hbrings
    rw [rows_fits htext hfits]
    exact hbrings
  · rw [hcolumns, List.length_map]
    intro hwide
    obtain ⟨place, count, hcount, hrows⟩ := rows_tooWide htext hwide
    have hbrings := Reader.brings_failure names chunkSize ((before o text names.length).map (o.row names.length))
      (.lineTooWide place o.path count names.length)
    rw [← List.map_take, List.map_map, List.length_map] at hbrings
    rw [hrows]
    exact ⟨_, rfl, ⟨place, count, hcount, rfl⟩, hbrings⟩

end Tables

/-! ### Tables that are written -/

/-- A line of fields that are all between quotes. -/
def quotedLine (separator : Char) (fields : List String) : String :=
  (String.singleton separator).intercalate (fields.map quotedField)

/-- A table as a text: lines that are skipped, a header and rows with every field between quotes, and at the end one
more line feed or none. -/
structure Written (o : Options) (text : String) (names : List String) (rows : List (List String)) : Prop where
  header : o.hasHeader = true
  separator : o.separator ≠ '"' ∧ o.separator ≠ '\n'
  nonempty : names ≠ []
  distinct : names.Nodup
  trimmed : ∀ name ∈ names, name ≠ "" ∧ Text.trim name = name
  width : ∀ row ∈ rows, row.length = names.length
  feeds : ∀ fields ∈ names :: rows, ∀ field ∈ fields, '\n' ∉ field.toList
  text : ∃ skipped ending, skipped.length = o.skipLines ∧ (∀ line ∈ skipped, '\n' ∉ line.toList) ∧
    (ending = "" ∨ ending = "\n") ∧
    text = "\n".intercalate (skipped ++ (names :: rows).map (quotedLine o.separator)) ++ ending

section Lines

variable {fields : List String}

theorem splitLine_quotedLine {separator : Char} (hseparator : separator ≠ '"') (hfields : fields ≠ []) :
    splitLine separator (quotedLine separator fields) = fields := by
  have hwritten : List.Forall₂ (FieldText separator) fields (fields.map quotedField) :=
    List.forall₂_map_right_iff.mpr (List.forall₂_same.mpr fun _ _ => .quoted)
  rw [splitLine, quotedLine, String.toList_intercalate, String.toList_singleton,
    splitFrom_texts hseparator hfields hwritten, List.map_map]
  exact List.map_id'' (fun field => String.ofList_toList) fields

theorem feed_not_mem_quotedField {field : String} (h : '\n' ∉ field.toList) : '\n' ∉ (quotedField field).toList := by
  intro hmem
  simp only [quotedField, String.toList_ofList, List.mem_append, List.mem_cons, List.mem_flatMap] at hmem
  obtain (hquote | ⟨c, hc, hfeed⟩) | hquote := hmem
  · exact absurd hquote (by decide)
  · have hfeed : '\n' = c := by split at hfeed <;> simpa using hfeed
    exact h (hfeed ▸ hc)
  · exact absurd hquote (by decide)

theorem mem_intercalate {c separator : Char} {texts : List (List Char)} (h : c ∈ [separator].intercalate texts) :
    c = separator ∨ ∃ text ∈ texts, c ∈ text := by
  induction texts with
  | nil => simp at h
  | cons text texts ih =>
    cases texts with
    | nil => exact .inr ⟨text, List.mem_cons_self, by simpa using h⟩
    | cons next texts =>
      rw [List.intercalate_cons_cons, List.mem_append, List.mem_append, List.mem_singleton] at h
      obtain (h | h) | h := h
      · exact .inr ⟨text, List.mem_cons_self, h⟩
      · exact .inl h
      · obtain h | ⟨t, ht, h⟩ := ih h
        · exact .inl h
        · exact .inr ⟨t, List.mem_cons_of_mem _ ht, h⟩

theorem feed_not_mem_quotedLine {separator : Char} (hseparator : separator ≠ '\n')
    (h : ∀ field ∈ fields, '\n' ∉ field.toList) : '\n' ∉ (quotedLine separator fields).toList := by
  intro hmem
  rw [quotedLine, String.toList_intercalate, String.toList_singleton, List.map_map] at hmem
  obtain heq | ⟨text, htext, hmem⟩ := mem_intercalate hmem
  · exact hseparator heq.symm
  · obtain ⟨field, hfield, rfl⟩ := List.mem_map.mp htext
    exact feed_not_mem_quotedField (h field hfield) hmem

theorem quotedLine_ends (separator : Char) (hfields : fields ≠ []) :
    ∃ cs, (quotedLine separator fields).toList = cs ++ ['"'] := by
  induction fields with
  | nil => exact absurd rfl hfields
  | cons field fields ih =>
    cases fields with
    | nil =>
      have hline : (quotedLine separator [field]).toList = (quotedField field).toList := by simp [quotedLine]
      exact ⟨_, hline.trans String.toList_ofList⟩
    | cons next fields =>
      obtain ⟨cs, hcs⟩ := ih (List.cons_ne_nil _ _)
      rw [quotedLine, String.toList_intercalate, List.map_map, List.map_cons] at hcs
      rw [quotedLine, String.toList_intercalate, List.map_map, List.map_cons, List.map_cons,
        List.intercalate_cons_cons, hcs, ← List.append_assoc]
      exact ⟨_, rfl⟩

theorem dropReturns_quotedLine (separator : Char) (hfields : fields ≠ []) :
    Files.dropReturns (quotedLine separator fields) = quotedLine separator fields := by
  obtain ⟨cs, hcs⟩ := quotedLine_ends separator hfields
  have hkept : Text.dropRightWhile (· = '\r') (cs ++ ['"']) = cs ++ ['"'] := by simp [Text.dropRightWhile]
  rw [Files.dropReturns, hcs, hkept, ← hcs, String.ofList_toList]

theorem quotedLine_ne_empty (separator : Char) (hfields : fields ≠ []) : quotedLine separator fields ≠ "" := by
  intro hempty
  obtain ⟨cs, hcs⟩ := quotedLine_ends separator hfields
  simp [hempty] at hcs

end Lines

section Written

variable {o : Options} {text : String} {names : List String} {rows : List (List String)}

theorem Written.fields_ne_nil (h : Written o text names rows) {fields : List String}
    (hfields : fields ∈ names :: rows) : fields ≠ [] := by
  obtain rfl | hrow := List.mem_cons.mp hfields
  · exact h.nonempty
  · intro hempty
    have hwidth := h.width fields hrow
    rw [hempty, List.length_nil] at hwidth
    exact h.nonempty (List.length_eq_zero_iff.mp hwidth.symm)

theorem Written.drop_textLines (h : Written o text names rows) :
    (Files.textLines text).drop o.skipLines = (names :: rows).map (quotedLine o.separator) := by
  obtain ⟨skipped, ending, hskip, hskipped, hending, rfl⟩ := h.text
  rw [Files.textLines_intercalate (by simp) ?feeds ?last hending, ← hskip, List.drop_left]
  case feeds =>
    intro line hline
    obtain hline | hline := List.mem_append.mp hline
    · exact hskipped line hline
    · obtain ⟨fields, hfields, rfl⟩ := List.mem_map.mp hline
      exact feed_not_mem_quotedLine h.separator.2 (h.feeds fields hfields)
  case last =>
    rw [List.getLast?_append_of_ne_nil _ (by simp), List.getLast?_map]
    intro hlast
    obtain ⟨fields, hfields, hempty⟩ := Option.map_eq_some_iff.mp hlast
    exact quotedLine_ne_empty _ (h.fields_ne_nil (List.mem_of_getLast? hfields)) hempty

theorem Written.columnNames_eq (h : Written o text names rows) {content : List UInt8}
    (htext : String.fromUTF8? content.toByteArray = some text) : columnNames o (.file content) = .ok names := by
  have hlines : (Files.lines content).drop o.skipLines =
      some (quotedLine o.separator names) :: (rows.map (quotedLine o.separator)).map some := by
    rw [Files.lines_eq htext, ← List.map_drop, h.drop_textLines]
    rfl
  rw [columnNames, hlines]
  simp only [h.header, if_true]
  rw [dropReturns_quotedLine _ h.nonempty, splitLine_quotedLine h.separator.1 h.nonempty,
    headerNames_eq h.trimmed (by simpa using h.distinct), List.nil_append]

theorem Written.dataLines_eq (h : Written o text names rows) :
    dataLines o text = rows.map (quotedLine o.separator) := by
  have hdrop : (Files.textLines text).drop (o.skipLines + 1) = rows.map (quotedLine o.separator) := by
    rw [← List.drop_drop, h.drop_textLines]
    rfl
  have hkept : (rows.map (quotedLine o.separator)).map Files.dropReturns = rows.map (quotedLine o.separator) := by
    rw [List.map_map]
    exact List.map_congr_left fun row hrow =>
      dropReturns_quotedLine _ (h.fields_ne_nil (List.mem_cons_of_mem _ hrow))
  rw [dataLines, h.header, if_pos rfl, hdrop, filledLines_eq, hkept, List.filter_eq_self]
  intro line hline
  obtain ⟨row, hrow, rfl⟩ := List.mem_map.mp hline
  simpa using quotedLine_ne_empty _ (h.fields_ne_nil (List.mem_cons_of_mem _ hrow))

theorem Written.row_eq (h : Written o text names rows) {row : List String} (hrow : row ∈ rows) :
    o.fits names.length (quotedLine o.separator row) ∧
      o.row names.length (quotedLine o.separator row) = row.map .text := by
  have hsplit := splitLine_quotedLine h.separator.1 (h.fields_ne_nil (List.mem_cons_of_mem _ hrow))
  simp [Options.fits, Options.row, hsplit, h.width row hrow]

end Written

/-- The columns and the rows of a file that is text agree: whenever there are columns, the rows can be opened and are
those of the data lines under these columns. A table that is written with every field between quotes is read back. -/
theorem columns_agree_with_rows {context : SourceContext} {method : String} {arguments : List Value} {o : Options}
    {content : List UInt8} {text : String} (ho : options method arguments = .ok o)
    (hopen : context.files.open? o.path = .ok (.file content))
    (htext : String.fromUTF8? content.toByteArray = some text) :
    (∀ columns, schema.columns context.files method arguments = .ok columns →
      ∃ source, schema.rows context method arguments = .ok source ∧ Shows o text context.chunkSize columns source) ∧
    ∀ names rows, Written o text names rows →
      schema.columns context.files method arguments = .ok (names.map fun name => ⟨name, .text⟩) ∧
      ∃ source, schema.rows context method arguments = .ok source ∧
        source.Brings (rows.map fun row => .ok (.positional names (row.map .text))) := by
  constructor
  · intro columns hcolumns
    obtain ⟨names, hnames, rfl⟩ := (columns_eq_ok_iff ho hopen).mp hcolumns
    exact ⟨_, rows_eq ho hopen hnames, shows_source htext hnames context.chunkSize⟩
  · intro names rows hwritten
    have hnames := hwritten.columnNames_eq htext
    refine ⟨(columns_eq_ok_iff ho hopen).mpr ⟨names, hnames, rfl⟩, _, rows_eq ho hopen hnames, ?_⟩
    have hfits : ∀ line ∈ dataLines o text, o.fits names.length line := by
      intro line hline
      rw [hwritten.dataLines_eq] at hline
      obtain ⟨row, hrow, rfl⟩ := List.mem_map.mp hline
      exact (hwritten.row_eq hrow).1
    have hrows : (dataLines o text).map (o.row names.length) = rows.map (·.map .text) := by
      rw [hwritten.dataLines_eq, List.map_map]
      exact List.map_congr_left fun row hrow => (hwritten.row_eq hrow).2
    have hbrings := Reader.brings_complete names context.chunkSize (rows.map (·.map .text))
    rw [List.map_map, ← hrows] at hbrings
    rw [rows_fits htext hfits]
    exact hbrings

/-- A skipped line, quotes in a name, a separator in a field and an empty field, read in chunks of one row. -/
theorem columns_agree_with_rows_quoted :
    ∃ content source,
      String.fromUTF8? content.toByteArray = some "# notes\n\"id\";\"a \"\"b\"\"\"\n\"1\";\"x;y\"\n\"\";\"z\"" ∧
      schema.rows ⟨⟨[("t.csv", content)]⟩, 1⟩ "file" [.text "t.csv", .text ";", .boolean true, .integer 1] =
        .ok source ∧
      source.Brings [.ok (.positional ["id", "a \"b\""] [.text "1", .text "x;y"]),
        .ok (.positional ["id", "a \"b\""] [.text "", .text "z"])] := by
  have ho : options "file" [.text "t.csv", .text ";", .boolean true, .integer 1] = .ok ⟨"t.csv", ';', true, 1⟩ :=
    toOption_eq_some_iff.mp (by decide +kernel)
  have hopen (content : List UInt8) :
      (⟨⟨[("t.csv", content)]⟩, 1⟩ : SourceContext).files.open? "t.csv" = .ok (.file content) := rfl
  have hwritten : Written ⟨"t.csv", ';', true, 1⟩ "# notes\n\"id\";\"a \"\"b\"\"\"\n\"1\";\"x;y\"\n\"\";\"z\""
      ["id", "a \"b\""] [["1", "x;y"], ["", "z"]] :=
    ⟨rfl, by decide, by decide, by decide, by decide +kernel, by decide, by decide +kernel,
      ["# notes"], "", rfl, by decide +kernel, .inl rfl, by decide +kernel⟩
  obtain ⟨source, hrows, hbrings⟩ :=
    ((columns_agree_with_rows ho (hopen _) (Files.fromUTF8?_toList _)).2 _ _ hwritten).2
  exact ⟨_, source, Files.fromUTF8?_toList _, hrows, hbrings⟩

end Delimited
end TabularQuery
