import ActixPura.OrderModel
import ActixPura.Runs

/-!
# The operation log

`persistence/log.rs`. The log on the file system is one file of lines that is only appended to; a
write puts the JSON text of an entry and a line feed at its end, and a write that fails leaves some
first bytes of this. A query reads the whole file as text, parses it line by line, skips what it
cannot parse and filters the rest. The log in memory filters a list.

What a failed write leaves stays at the end of the file without a line feed. Such a rest is skipped,
unless it is the whole text of an entry or ends inside a character, when the file is no text any
more; but the next write goes on in the same line, and its entry is lost.
-/

namespace ActixPura.OperationLog

open Runs

inductive LogResult
  | success
  | failure
  deriving DecidableEq

structure LogEntry where
  id : String
  timestamp : DateTime
  operationType : String
  targetId : Option String
  details : String
  result : LogResult
  deriving DecidableEq

inductive LogError
  | io
  deriving DecidableEq

structure LogQuery where
  operationType : Option String
  targetId : Option String
  startTime : Option DateTime
  endTime : Option DateTime
  limit : Option ℕ

/-- The filters of a query and its limit. -/
def LogQuery.select (q : LogQuery) (entries : List LogEntry) : List LogEntry :=
  let filtered := entries
    |>.filter (fun e => q.operationType.all fun operationType => e.operationType == operationType)
    |>.filter (fun e => q.targetId.all fun id => e.targetId.any fun targetId => targetId == id)
    |>.filter (fun e => q.startTime.all fun time => time ≤ e.timestamp)
    |>.filter (fun e => q.endTime.all fun time => e.timestamp ≤ time)
  match q.limit with
  | some limit => filtered.take limit
  | none => filtered

/-- A first part of a text. -/
abbrev Text := List Char

/-- Beginnings of texts of entries, none of them empty. -/
def CutFrom (toString : LogEntry → Text) (parts : List Text) : Prop :=
  ∀ part ∈ parts, part ≠ [] ∧ ∃ e, part <+: toString e

theorem cutFrom_nil (toString : LogEntry → Text) : CutFrom toString [] := fun _ hpart =>
  absurd hpart List.not_mem_nil

/-- `serde_json` on log entries. The text of an entry is an object on one line that is read back as
the entry. What was put together from parts, each of them cut from the start of the text of an
entry, is read as an entry only if it is the whole text of one entry: two objects in a row, an
object inside a string and an object that is not closed are refused. -/
structure SerdeJson where
  toString : LogEntry → Text
  fromStr : Text → Option LogEntry
  roundTrip : ∀ e, fromStr (toString e) = some e
  noNewline : ∀ e, '\n' ∉ toString e
  opened : ∀ e, (toString e).head? = some '{'
  closed : ∀ e, (toString e).getLast? = some '}'
  whole : ∀ parts : List Text, CutFrom toString parts →
    ∀ e, fromStr parts.flatten = some e → ∃ e', parts = [toString e']

/-! ## Lines -/

/-- The `White_Space` property of Unicode, which `str::trim` goes by. -/
def isWhiteSpace (c : Char) : Bool :=
  let n := c.toNat
  (0x9 ≤ n && n ≤ 0xD) || n == 0x20 || n == 0x85 || n == 0xA0 || n == 0x1680 ||
    (0x2000 ≤ n && n ≤ 0x200A) || n == 0x2028 || n == 0x2029 || n == 0x202F || n == 0x205F ||
    n == 0x3000

/-- A line that was ended may have a carriage return before the line feed. -/
def stripReturn (line : Text) : Text :=
  if line.getLast? = some '\r' then line.dropLast else line

/-- The pieces between the line feeds as lines; nothing after the last line feed is no line. -/
def endLines : List Text → List Text
  | [] => []
  | [last] => if last.isEmpty then [] else [last]
  | piece :: piece' :: pieces => stripReturn piece :: endLines (piece' :: pieces)

/-- `str::lines`. -/
def lines (text : Text) : List Text := endLines (text.splitOn '\n')

theorem lines_of_notMem {text : Text} (h : '\n' ∉ text) :
    lines text = if text = [] then [] else [text] := by
  rw [lines, List.splitOn_eq_singleton h, endLines]
  cases text <;> rfl

theorem lines_append {line : Text} (hline : '\n' ∉ line) (hreturn : line.getLast? ≠ some '\r')
    (rest : Text) : lines (line ++ '\n' :: rest) = line :: lines rest := by
  rw [lines, List.splitOn_append_cons_self_of_not_mem hline, lines]
  cases hrest : rest.splitOn '\n' with
  | nil => exact absurd hrest (List.splitOn_ne_nil '\n' rest)
  | cons piece pieces => rw [endLines, stripReturn, if_neg hreturn]

/-! ## The two logs -/

variable (json : SerdeJson)

/-- What a write appends when it succeeds. -/
def entryLine (e : LogEntry) : Text := json.toString e ++ ['\n']

/-- A write of an entry; one that fails has written some bytes. -/
structure LogWrite where
  entry : LogEntry
  failed : Option ByteArray

/-- A failed write stops before the end of the line. -/
def LogWrite.Possible (w : LogWrite) : Prop :=
  ∀ written, w.failed = some written → ∃ rest, rest ≠ ByteArray.empty ∧
    written ++ rest = (entryLine json w.entry).utf8Encode

/-- The file on the one hand, the entries in memory on the other. -/
structure Logs where
  file : ByteArray
  entries : List LogEntry

def parseLines (text : Text) : List LogEntry :=
  ((lines text).filter fun line => !line.all isWhiteSpace).filterMap json.fromStr

/-- `load_all_logs`: the file has to be UTF-8. -/
def loadAllLogs (file : ByteArray) : Except LogError (List LogEntry) :=
  match String.fromUTF8? file with
  | none => .error .io
  | some content => .ok (parseLines json content.toList)

namespace Logs

def start : Logs := ⟨ByteArray.empty, []⟩

/-- `write_log` on the file, and in memory if it succeeds. -/
def step (s : Logs) (w : LogWrite) : Logs :=
  match w.failed with
  | none => ⟨s.file ++ (String.ofList (entryLine json w.entry)).toByteArray, s.entries ++ [w.entry]⟩
  | some written => { s with file := s.file ++ written }

def queryFile (s : Logs) (q : LogQuery) : Except LogError (List LogEntry) :=
  (loadAllLogs json s.file).map q.select

/-- Every query of the file answers what the log in memory answers. -/
def Durable (s : Logs) : Prop := ∀ q : LogQuery, s.queryFile json q = .ok (q.select s.entries)

/-- The file is empty or its last line is ended. -/
def AtLineEnd (s : Logs) : Prop :=
  ∃ text : Text, s.file = text.utf8Encode ∧ ∀ c, text.getLast? = some c → c = '\n'

/-- A write that succeeds starts on a line of its own. One that fails leaves whole characters, and
not the whole text of an entry on a line of its own. -/
def Clean (s : Logs) (w : LogWrite) : Prop :=
  match w.failed with
  | none => s.AtLineEnd
  | some written => written.IsValidUTF8 ∧
    ¬ (s.AtLineEnd ∧ ∃ e, written = (json.toString e).utf8Encode)

/-- The file is the lines of the entries and a rest made of cut texts, which is no entry. -/
def Torn (s : Logs) : Prop :=
  ∃ parts : List Text, s.file = (s.entries.flatMap (entryLine json) ++ parts.flatten).utf8Encode ∧
    CutFrom json.toString parts ∧ ∀ e, parts ≠ [json.toString e]

variable {json} {s : Logs}

theorem torn_start : start.Torn json := ⟨[], rfl, cutFrom_nil _, by simp⟩

theorem utf8Encode_injective : Function.Injective List.utf8Encode := by
  intro l l' h
  have hdecode := congrArg ByteArray.utf8Decode? h
  rw [List.utf8Decode?_utf8Encode, List.utf8Decode?_utf8Encode] at hdecode
  simpa using hdecode

theorem isValidUTF8_append_iff (l : Text) (b : ByteArray) :
    (l.utf8Encode ++ b).IsValidUTF8 ↔ b.IsValidUTF8 := by
  induction l with
  | nil => simp
  | cons c l ih =>
      rw [List.utf8Encode_cons, ByteArray.append_assoc,
        ByteArray.isValidUTF8_utf8Encode_singleton_append_iff, ih]

theorem loadAllLogs_utf8Encode (l : Text) :
    loadAllLogs json l.utf8Encode = .ok (parseLines json l) := by
  have hread : String.fromUTF8? l.utf8Encode = some (String.ofList l) := by
    rw [String.fromUTF8?, dif_pos ByteArray.isValidUTF8_utf8Encode]
    rfl
  simp only [loadAllLogs, hread, String.toList_ofList]

theorem loadAllLogs_of_not_isValidUTF8 {file : ByteArray} (h : ¬ file.IsValidUTF8) :
    loadAllLogs json file = .error .io := by
  rw [loadAllLogs, String.fromUTF8?, dif_neg h]

theorem select_all (entries : List LogEntry) :
    LogQuery.select ⟨none, none, none, none, none⟩ entries = entries := by
  simp [LogQuery.select]

/-- Queries see all of what is loaded. -/
theorem durable_iff : s.Durable json ↔ loadAllLogs json s.file = .ok s.entries := by
  constructor
  · intro h
    have hall := h ⟨none, none, none, none, none⟩
    rw [queryFile, select_all] at hall
    cases hload : loadAllLogs json s.file with
    | error error => rw [hload] at hall; cases hall
    | ok entries =>
        rw [hload] at hall
        simpa [Except.map, select_all] using hall
  · intro h q
    rw [queryFile, h]
    rfl

/-! ### What is read back -/

theorem parseLines_of_notMem {line : Text} (hline : '\n' ∉ line) (hbrace : '{' ∈ line) :
    parseLines json line = (json.fromStr line).toList := by
  have hne : line ≠ [] := List.ne_nil_of_mem hbrace
  have hblank : line.all isWhiteSpace = false :=
    List.all_eq_false.mpr ⟨'{', hbrace, by decide⟩
  rw [parseLines, lines_of_notMem hline, if_neg hne]
  cases hparse : json.fromStr line <;> simp [hblank, hparse]

theorem parseLines_append {line : Text} (hline : '\n' ∉ line) (hbrace : '{' ∈ line)
    (hreturn : line.getLast? ≠ some '\r') (rest : Text) : parseLines json (line ++ '\n' :: rest) =
      (json.fromStr line).toList ++ parseLines json rest := by
  have hblank : line.all isWhiteSpace = false :=
    List.all_eq_false.mpr ⟨'{', hbrace, by decide⟩
  rw [parseLines, lines_append hline hreturn, parseLines]
  cases hparse : json.fromStr line <;> simp [hblank, hparse]

theorem brace_mem (e : LogEntry) : '{' ∈ json.toString e :=
  List.mem_of_head? (json.opened e)

theorem getLast?_append_toString (text : Text) (e : LogEntry) :
    (text ++ json.toString e).getLast? ≠ some '\r' := by
  rw [List.getLast?_append, json.closed, Option.some_or]
  decide

theorem parseLines_entries (entries : List LogEntry) (rest : Text) :
    parseLines json (entries.flatMap (entryLine json) ++ rest) =
      entries ++ parseLines json rest := by
  induction entries with
  | nil => rfl
  | cons e entries ih =>
      have hlast : (json.toString e).getLast? ≠ some '\r' := getLast?_append_toString [] e
      rw [List.flatMap_cons, entryLine, List.append_assoc, List.append_assoc, List.singleton_append,
        parseLines_append (json.noNewline e) (brace_mem e) hlast, ih, json.roundTrip]
      rfl

/-! ### Cut texts -/

variable {parts : List Text}

theorem brace_mem_of_cut {part : Text} {e : LogEntry} (hne : part ≠ [])
    (hpart : part <+: json.toString e) : '{' ∈ part := by
  obtain ⟨rest, hrest⟩ := hpart
  have hhead := json.opened e
  rw [← hrest, List.head?_append_of_ne_nil part hne] at hhead
  exact List.mem_of_head? hhead

theorem newline_notMem_flatten (h : CutFrom json.toString parts) :
    '\n' ∉ parts.flatten := by
  intro hmem
  obtain ⟨part, hpart, hnewline⟩ := List.mem_flatten.mp hmem
  obtain ⟨-, e, hbegin⟩ := h part hpart
  exact json.noNewline e (hbegin.subset hnewline)

theorem parseLines_parts (h : CutFrom json.toString parts)
    (hparts : ∀ e, parts ≠ [json.toString e]) : parseLines json parts.flatten = [] := by
  cases parts with
  | nil => rfl
  | cons part parts =>
      obtain ⟨hne, e, hpart⟩ := h part List.mem_cons_self
      have hbrace : '{' ∈ (part :: parts).flatten :=
        List.mem_append_left _ (brace_mem_of_cut hne hpart)
      rw [parseLines_of_notMem (newline_notMem_flatten h) hbrace]
      cases hparse : json.fromStr (part :: parts).flatten with
      | none => rfl
      | some e' =>
          obtain ⟨e'', he''⟩ := json.whole _ h e' hparse
          exact absurd he'' (hparts e'')

theorem cut_append (h : CutFrom json.toString parts) {next : Text}
    (hne : next ≠ []) {e : LogEntry} (hnext : next <+: json.toString e) :
    CutFrom json.toString (parts ++ [next]) := by
  intro part hpart
  rcases List.mem_append.mp hpart with hpart | hpart
  · exact h part hpart
  · rw [List.mem_singleton.mp hpart]
    exact ⟨hne, e, hnext⟩

theorem flatten_append_part (parts : List Text) (next : Text) :
    (parts ++ [next]).flatten = parts.flatten ++ next := by
  rw [List.flatten_append, List.flatten_singleton]

/-- The line of an entry that goes on behind a cut text is skipped. -/
theorem parseLines_merged (h : CutFrom json.toString parts) (hne : parts ≠ []) (e : LogEntry) :
    parseLines json (parts.flatten ++ entryLine json e) = [] := by
  have hwhole : json.toString e <+: json.toString e := List.prefix_rfl
  have hcut := cut_append h (List.ne_nil_of_mem (brace_mem e)) hwhole
  have htwo : ∀ e', parts ++ [json.toString e] ≠ [json.toString e'] := by
    intro e' heq
    have hlength := congrArg List.length heq
    rw [List.length_append] at hlength
    exact hne (List.length_eq_zero_iff.mp (by simpa using hlength))
  have hnewline := newline_notMem_flatten hcut
  have hskipped := parseLines_parts hcut htwo
  have hbrace : '{' ∈ parts.flatten ++ json.toString e :=
    List.mem_append_right _ (brace_mem e)
  rw [flatten_append_part] at hnewline hskipped
  rw [parseLines_of_notMem hnewline hbrace] at hskipped
  rw [entryLine, ← List.append_assoc,
    parseLines_append hnewline hbrace (getLast?_append_toString _ _), hskipped]
  rfl

theorem durable_of_torn (h : s.Torn json) : s.Durable json := by
  obtain ⟨parts, hfile, hcut, hparts⟩ := h
  rw [durable_iff, hfile, loadAllLogs_utf8Encode, parseLines_entries, parseLines_parts hcut hparts,
    List.append_nil]

/-- A file of lines and cut texts ends a line where there are no cut texts. -/
theorem atLineEnd_iff (hfile : s.file =
      (s.entries.flatMap (entryLine json) ++ parts.flatten).utf8Encode)
    (hcut : CutFrom json.toString parts) :
    s.AtLineEnd ↔ parts = [] := by
  constructor
  · rintro ⟨text, htext, hend⟩
    rw [hfile] at htext
    obtain rfl := utf8Encode_injective htext
    by_contra hne
    obtain ⟨part, parts', rfl⟩ := List.exists_cons_of_ne_nil hne
    have hflat : (part :: parts').flatten ≠ [] := by
      rw [List.flatten_cons]
      exact List.append_ne_nil_of_left_ne_nil (hcut part List.mem_cons_self).1 _
    have hlast := List.getLast?_eq_some_getLast hflat
    have hnewline := hend _ (by rw [List.getLast?_append, hlast, Option.some_or])
    exact newline_notMem_flatten hcut (hnewline ▸ List.getLast_mem hflat)
  · rintro rfl
    refine ⟨_, hfile, fun c hc => ?_⟩
    rw [List.flatten_nil, List.append_nil] at hc
    cases hentries : s.entries using List.reverseRecOn with
    | nil => simp [hentries] at hc
    | append_singleton entries e =>
        simp [hentries, entryLine] at hc
        exact hc.symm

/-! ### One write -/

variable {w : LogWrite} {e : LogEntry}

/-- A write that succeeds behind a cut text is lost with it. -/
theorem success_cases (h : s.Torn json) (hw : w.failed = none) :
    (s.Clean json w ∧ (step json s w).Torn json) ∨
      (¬ s.Clean json w ∧ ¬ (step json s w).Durable json) := by
  obtain ⟨parts, hfile, hcut, -⟩ := h
  have hend := atLineEnd_iff hfile hcut
  have hstep : step json s w =
      ⟨s.file ++ (entryLine json w.entry).utf8Encode, s.entries ++ [w.entry]⟩ := by
    simp only [step, hw, String.toByteArray_ofList]
  rw [hfile, ← List.utf8Encode_append] at hstep
  rw [hstep, Clean, hw]
  dsimp only
  rcases eq_or_ne parts [] with hparts | hparts
  · refine Or.inl ⟨hend.mpr hparts, [], ?_, cutFrom_nil _, by simp⟩
    simp [hparts]
  · refine Or.inr ⟨fun hclean => hparts (hend.mp hclean), fun hdurable => ?_⟩
    rw [durable_iff, loadAllLogs_utf8Encode, List.append_assoc, parseLines_entries,
      parseLines_merged hcut hparts] at hdurable
    simp at hdurable

/-- What a failed write leaves is text cut from the text of its entry, or no text. -/
theorem possible_eq_utf8Encode (hw : w.Possible json) {written : ByteArray}
    (hfailed : w.failed = some written) (hvalid : written.IsValidUTF8) :
    ∃ part : Text, written = part.utf8Encode ∧ part <+: json.toString w.entry := by
  obtain ⟨rest, hrest, hline⟩ := hw written hfailed
  obtain ⟨part, rfl⟩ := hvalid
  refine ⟨part, rfl, ?_⟩
  have hbegin := List.isPrefix_of_utf8Encode_append_eq_utf8Encode rest hline
  rcases List.prefix_concat_iff.mp hbegin with hall | hpart
  · refine absurd (ByteArray.append_right_inj part.utf8Encode |>.mp ?_) hrest
    rw [hline, hall, ByteArray.append_empty]
    rfl
  · exact hpart

theorem step_failed {written : ByteArray} (hfailed : w.failed = some written) :
    step json s w = ⟨s.file ++ written, s.entries⟩ := by
  simp only [step, hfailed]

/-- The whole text of an entry at the end of the lines is read as one. -/
theorem not_durable_whole (hfile : s.file =
    (s.entries.flatMap (entryLine json) ++ json.toString e).utf8Encode) : ¬ s.Durable json := by
  intro hdurable
  rw [durable_iff, hfile, loadAllLogs_utf8Encode, parseLines_entries,
    parseLines_of_notMem (json.noNewline e) (brace_mem e), json.roundTrip] at hdurable
  simp at hdurable

/-- A failed write of whole characters is not noticed, unless it left the whole text of an entry on
a line of its own. -/
theorem failure_text (h : s.Torn json) {part : Text} (hfailed : w.failed = some part.utf8Encode)
    (hpart : part <+: json.toString w.entry) :
    (s.Clean json w ∧ (step json s w).Torn json) ∨
      (¬ s.Clean json w ∧ ¬ (step json s w).Durable json) := by
  obtain ⟨parts, hfile, hcut, hparts⟩ := h
  have hend := atLineEnd_iff hfile hcut
  have hvalid : part.utf8Encode.IsValidUTF8 := ByteArray.isValidUTF8_utf8Encode
  rw [step_failed hfailed, Clean, hfailed, hfile, ← List.utf8Encode_append, List.append_assoc]
  dsimp only
  rcases eq_or_ne part [] with rfl | hne
  · refine Or.inl ⟨⟨hvalid, ?_⟩, parts, by rw [List.append_nil], hcut, hparts⟩
    rintro ⟨-, e, he⟩
    have hempty := utf8Encode_injective he
    exact List.ne_nil_of_mem (brace_mem e) hempty.symm
  · by_cases hwhole : ∃ e, parts ++ [part] = [json.toString e]
    · obtain ⟨e, he⟩ := hwhole
      obtain ⟨rfl, rfl⟩ : parts = [] ∧ part = json.toString e := by
        simpa [List.append_eq_singleton_iff] using he
      exact Or.inr ⟨fun hclean => hclean.2 ⟨hend.mpr rfl, e, rfl⟩, not_durable_whole rfl⟩
    · refine Or.inl ⟨⟨hvalid, ?_⟩, parts ++ [part], by rw [flatten_append_part],
        cut_append hcut hne hpart, fun e he => hwhole ⟨e, he⟩⟩
      rintro ⟨hclean, e, he⟩
      refine hwhole ⟨e, ?_⟩
      rw [hend.mp hclean, utf8Encode_injective he, List.nil_append]

/-- A file that ends inside a character cannot be read any more. -/
theorem failure_invalid (h : s.Torn json) {written : ByteArray} (hfailed : w.failed = some written)
    (hinvalid : ¬ written.IsValidUTF8) :
    ¬ s.Clean json w ∧ ¬ (step json s w).Durable json := by
  obtain ⟨parts, hfile, -, -⟩ := h
  rw [step_failed hfailed, Clean, hfailed]
  refine ⟨fun hclean => hinvalid hclean.1, fun hdurable => ?_⟩
  rw [durable_iff, hfile, loadAllLogs_of_not_isValidUTF8] at hdurable
  · cases hdurable
  · rwa [isValidUTF8_append_iff]

theorem step_cases (h : s.Torn json) (hw : w.Possible json) :
    (s.Clean json w ∧ (step json s w).Torn json) ∨
      (¬ s.Clean json w ∧ ¬ (step json s w).Durable json) := by
  cases hfailed : w.failed with
  | none => exact success_cases h hfailed
  | some written =>
      by_cases hvalid : written.IsValidUTF8
      · obtain ⟨part, rfl, hpart⟩ := possible_eq_utf8Encode hw hfailed hvalid
        exact failure_text h hfailed hpart
      · exact Or.inr (failure_invalid h hfailed hvalid)

theorem torn_step (h : s.Torn json) (hw : w.Possible json) (hclean : s.Clean json w) :
    (step json s w).Torn json := by
  rcases step_cases h hw with ⟨-, htorn⟩ | ⟨hunclean, -⟩
  · exact htorn
  · exact absurd hclean hunclean

theorem clean_iff (h : s.Torn json) (hw : w.Possible json) :
    s.Clean json w ↔ (step json s w).Durable json := by
  rcases step_cases h hw with ⟨hclean, htorn⟩ | ⟨hunclean, hlost⟩
  · exact iff_of_true hclean (durable_of_torn htorn)
  · exact iff_of_false hunclean hlost

end Logs

/-! ## Some texts -/

theorem exists_index : ∃ index : LogEntry → ℕ, Function.Injective index := by
  have hchar : Countable Char := ⟨Char.toNat, fun c d h => Char.toNat_inj.mp h⟩
  have hstring : Countable String := Function.Injective.countable fun s t => String.toList_inj.mp
  let fields := fun e : LogEntry =>
    (e.id, e.timestamp, e.operationType, e.targetId, e.details, decide (e.result = .success))
  have hfields : Function.Injective fields := by
    rintro ⟨id, timestamp, operationType, targetId, details, result⟩
      ⟨id', timestamp', operationType', targetId', details', result'⟩ h
    cases result <;> cases result' <;> simp_all [fields]
  have hentry : Countable LogEntry := hfields.countable
  exact hentry.exists_injective_nat

noncomputable def index : LogEntry → ℕ := exists_index.choose

def createOrder : LogEntry := ⟨"1", 0, "create_order", some "7", "BTC/USD", .success⟩

def createText : Text :=
  "\"id\":\"1\",\"timestamp\":\"1970-01-01T00:00:00Z\",".toList ++
    "\"operation_type\":\"create_order\",\"target_id\":\"7\",".toList ++
    "\"details\":\"BTC/USD\",\"result\":\"Success\"".toList

/-- What `serde_json` writes between the braces for one entry, and a stand-in for the others. -/
noncomputable def body (e : LogEntry) : Text :=
  if e = createOrder then createText else List.replicate (index e) 'x'

theorem notMem_body {c : Char} (hc : c = '\n' ∨ c = '{' ∨ c = '}') (e : LogEntry) :
    c ∉ body e := by
  rw [body]
  split_ifs
  · unfold createText
    rcases hc with rfl | rfl | rfl <;> simp
  · intro hmem
    rw [List.eq_of_mem_replicate hmem] at hc
    revert hc
    decide

theorem createText_ne_replicate (n : ℕ) : createText ≠ List.replicate n 'x' := by
  intro h
  have hquote : '"' ∈ createText := by
    unfold createText
    simp
  rw [h] at hquote
  exact absurd (List.eq_of_mem_replicate hquote) (by decide)

theorem body_injective : Function.Injective body := by
  intro e e' h
  rw [body, body] at h
  split_ifs at h with he he' he'
  · rw [he, he']
  · exact absurd h (createText_ne_replicate _)
  · exact absurd h.symm (createText_ne_replicate _)
  · have hindex : index e = index e' := by simpa using congrArg List.length h
    exact exists_index.choose_spec hindex

/-- The entry that a text was written for. -/
noncomputable def entryOf (text : Text) : Option LogEntry :=
  open Classical in if h : ∃ e, '{' :: body e ++ ['}'] = text then some h.choose else none

theorem entryOf_eq_some {text : Text} {e : LogEntry} :
    entryOf text = some e ↔ text = '{' :: body e ++ ['}'] := by
  rw [entryOf]
  constructor
  · intro h
    split_ifs at h with hex
    rw [← Option.some.inj h]
    exact hex.choose_spec.symm
  · intro h
    have hex : ∃ e, '{' :: body e ++ ['}'] = text := ⟨e, h.symm⟩
    have hsame := hex.choose_spec.trans h
    rw [dif_pos hex]
    exact congrArg some (body_injective (by simpa using hsame))

theorem count_brace (e : LogEntry) : ('{' :: body e ++ ['}']).count '{' = 1 := by
  rw [List.cons_append, List.count_cons_self, List.count_append,
    List.count_eq_zero_of_not_mem (notMem_body (Or.inr (Or.inl rfl)) e)]
  rfl

theorem one_le_count_brace {part : Text} {e : LogEntry} (hne : part ≠ [])
    (hpart : part <+: '{' :: body e ++ ['}']) : 1 ≤ part.count '{' := by
  obtain ⟨c, rest, rfl⟩ := List.exists_cons_of_ne_nil hne
  rw [List.cons_append, List.cons_prefix_cons] at hpart
  rw [hpart.1, List.count_cons_self]
  omega

/-- Every text has one opening brace, so what has one is one part. -/
noncomputable def serdeJson : SerdeJson where
  toString e := '{' :: body e ++ ['}']
  fromStr := entryOf
  roundTrip e := entryOf_eq_some.mpr rfl
  noNewline e := by simp [notMem_body (Or.inl rfl)]
  opened e := rfl
  closed e := List.getLast?_concat
  whole parts hparts e he := by
    have hflat := entryOf_eq_some.mp he
    have hcount := count_brace e
    rw [← hflat, List.count_flatten] at hcount
    have hlength := List.length_le_sum_of_one_le (parts.map (List.count '{')) (by
      intro n hn
      obtain ⟨part, hpart, rfl⟩ := List.mem_map.mp hn
      obtain ⟨hne, e', hbegin⟩ := hparts part hpart
      exact one_le_count_brace hne hbegin)
    rw [hcount, List.length_map] at hlength
    match parts with
    | [] => simp at hflat
    | [part] => exact ⟨e, by simpa using hflat⟩
    | _ :: _ :: _ => simp at hlength

/-! ## Sequences of writes -/

namespace Logs

/-- The log answers every query from the successful writes, at every moment of a sequence of writes,
exactly when every write is clean. -/
theorem durable_iff_clean (json : SerdeJson) (writes : List LogWrite)
    (h : ∀ w ∈ writes, w.Possible json) :
    (∀ before after, writes = before ++ after → (run (step json) start before).Durable json) ↔
      Admissible (step json) (Clean json) start writes := by
  have hstep : ∀ (s : Logs) (w : LogWrite), s.Torn json → w.Possible json →
      (step json s w).Durable json → (step json s w).Torn json := fun s w hs hw hdurable =>
    torn_step hs hw ((clean_iff hs hw).mpr hdurable)
  have hiff : ∀ (s : Logs) (w : LogWrite), s.Torn json → w.Possible json →
      ((step json s w).Durable json ↔ s.Clean json w) := fun s w hs hw => (clean_iff hs hw).symm
  rw [← admissible_congr hstep hiff torn_start h, admissible_iff_forall]
  constructor
  · rintro hall before w after rfl
    have hnext := hall (before ++ [w]) after (by simp)
    rwa [run_append] at hnext
  · rintro hall before after rfl
    cases before using List.reverseRecOn with
    | nil => exact durable_of_torn torn_start
    | append_singleton before w =>
        rw [run_append]
        exact hall before w after (by simp)

theorem possible_of_append {json : SerdeJson} {e : LogEntry} {part rest : Text}
    (h : part ++ rest = entryLine json e) (hne : rest ≠ []) :
    (⟨e, some part.utf8Encode⟩ : LogWrite).Possible json := by
  rintro _ ⟨⟩
  refine ⟨rest.utf8Encode, fun hempty => hne (utf8Encode_injective hempty), ?_⟩
  rw [← List.utf8Encode_append, h]

/-- A write that got no further than the first brace. -/
noncomputable def cutOff (e : LogEntry) : LogWrite := ⟨e, some ['{'].utf8Encode⟩

theorem possible_cutOff (e : LogEntry) : (cutOff e).Possible serdeJson := by
  have hline : ['{'] ++ (body e ++ ['}', '\n']) = entryLine serdeJson e := by
    simp [entryLine, serdeJson]
  exact possible_of_append hline (by simp)

theorem durable_iff_clean_lastFailed :
    (run (step serdeJson) start [⟨createOrder, none⟩, cutOff createOrder]).Durable serdeJson := by
  refine (durable_iff_clean serdeJson [⟨createOrder, none⟩, cutOff createOrder] ?_).mpr ?_
    _ [] (List.append_nil _).symm
  · intro w hw
    rcases List.mem_pair.mp hw with rfl | rfl
    · rintro _ ⟨⟩
    · exact possible_cutOff createOrder
  · refine ⟨⟨[], rfl, by simp⟩, ⟨ByteArray.isValidUTF8_utf8Encode, ?_⟩, trivial⟩
    rintro ⟨-, e, he⟩
    have hlast := serdeJson.closed e
    rw [← utf8Encode_injective he] at hlast
    exact absurd hlast (by decide)

/-- The write is tried again and succeeds, but its entry stands behind what was left of the first
attempt. -/
theorem not_durable :
    (∀ w ∈ [cutOff createOrder, ⟨createOrder, none⟩], w.Possible serdeJson) ∧
      (run (step serdeJson) start [cutOff createOrder, ⟨createOrder, none⟩]).entries =
        [createOrder] ∧
      (run (step serdeJson) start [cutOff createOrder, ⟨createOrder, none⟩]).queryFile serdeJson
        ⟨none, none, none, none, none⟩ = .ok [] := by
  refine ⟨?_, rfl, ?_⟩
  · intro w hw
    rcases List.mem_pair.mp hw with rfl | rfl
    · exact possible_cutOff createOrder
    · rintro _ ⟨⟩
  · have hcut : CutFrom serdeJson.toString [['{']] := by
      intro part hpart
      rw [List.mem_singleton.mp hpart]
      exact ⟨by simp, createOrder, body createOrder ++ ['}'], rfl⟩
    have hfile : (run (step serdeJson) start [cutOff createOrder, ⟨createOrder, none⟩]).file =
        (['{'] ++ entryLine serdeJson createOrder).utf8Encode := by
      rw [List.utf8Encode_append]
      simp [step, start, cutOff]
    have hmerged := parseLines_merged hcut (by simp) createOrder
    rw [queryFile, hfile, loadAllLogs_utf8Encode]
    rw [List.flatten_singleton] at hmerged
    rw [hmerged]
    rfl

end Logs

end ActixPura.OperationLog
