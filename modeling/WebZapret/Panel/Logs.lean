import WebZapret.Panel.Http
import Mathlib.Data.List.Sort

/-!
# The log pages

`tail_log`, `merged_log` and `export_logs` of `panel.py`. The logs are decoded with replacement
characters, so whatever their bytes are, each page is a text that can be sent.
-/

namespace WebZapret.Panel.Http

open Py Failing Selection

/-- A log file; `broken` is an error of its reading, with what its size is then. -/
inductive LogFile where
  | absent
  | broken (error : Printed) (size : Option Nat)
  | content (bytes : List Nat)

/-- `LOG_MODULES` -/
def logModules : List Str :=
  [lit "actions", lit "ss-server", lit "sockd", lit "nfqws", lit "redsocks", lit "ss-local",
    lit "udprelay", lit "panel", lit "test", lit "bcw"]

/-- `_read_file_lines` -/
def readFileLines (file : LogFile) (maxBytes : Nat) : Option (List Str) :=
  match file with
  | .absent => none
  | .broken error _ => some [lit "(log read error: " ++ error.1 ++ lit ")"]
  | .content bytes =>
    let lines := (Utf8.decode (bytes.drop (bytes.length - maxBytes))).lines
    some (if maxBytes < bytes.length then lines.tail else lines)

/-- The last `n` elements, for a positive `n`. -/
def lastOnes {α : Type} (n : Nat) (l : List α) : List α := l.drop (l.length - n)

/-! ## The merged log -/

/-- An entry of `_collected_entries`. -/
structure LogEntry where
  ts : Str
  rank : Nat
  seq : Nat
  text : Str

/-- The order of `(ts, rank, seq)`. -/
def LogEntry.Before (a b : LogEntry) : Prop :=
  a.ts < b.ts ∨ a.ts = b.ts ∧ (a.rank < b.rank ∨ a.rank = b.rank ∧ a.seq ≤ b.seq)

instance : DecidableRel LogEntry.Before := fun a b => by
  unfold LogEntry.Before
  infer_instance

/-- `tag_prefix + ln` -/
def tagged (mod line : Str) : Str :=
  if mod = lit "actions" then line else lit "[" ++ mod ++ lit "] " ++ line

section

variable [Tables]

/-- `_TS_RE.match(line)`, with the group. -/
def timestamp : Str → Option Str
  | 91 :: rest =>
    let fits (c p : Nat) : Bool := if p = 48 then (Tables.decimal c).isSome else c = p
    let ts := rest.take 20
    if (List.zipWith fits ts (lit "0000-00-00T00:00:00Z")).all id ∧ rest.length > 20 ∧
        rest[20]? = some 93 then some ts
    else none
  | _ => none

/-- The entries of a module, from line `seq` on; `lastTs` is the timestamp that a line without one
inherits. -/
def moduleEntries (rank : Nat) (mod lastTs : Str) (seq : Nat) : List Str → List LogEntry
  | [] => []
  | line :: lines =>
    let ts := (timestamp line).getD lastTs
    ⟨ts, rank, seq, tagged mod line⟩ :: moduleEntries rank mod ts (seq + 1) lines

/-- `_collected_entries` -/
def collectedEntries (logs : Str → LogFile) (tailBytes : Str → Nat) : List LogEntry :=
  (logModules.zipIdx.flatMap fun (mod, rank) =>
    moduleEntries rank mod [] 0 ((readFileLines (logs mod) (tailBytes mod)).getD [])).insertionSort
      LogEntry.Before

/-- `merged_log` -/
def mergedLog (logs : Str → LogFile) (n : Nat) : Str :=
  let entries := collectedEntries logs fun mod =>
    if mod = lit "actions" then 256 * 1024 else 64 * 1024
  if entries = [] then lit "(no log entries available across modules)\n"
  else Str.join (lit "\n") ((lastOnes n entries).map (·.text)) ++ lit "\n"

/-- `tail_log` -/
def tailLog (logs : Str → LogFile) (src : Str) (n : Int) : Str :=
  let n := (max 1 (min n 5000)).toNat
  let isName (c : Nat) := isLower c || isAsciiDigit c || c == 95 || c == 45
  if ¬(1 ≤ src.length ∧ src.length ≤ 64 ∧ src.all isName) then lit "(bad log source)"
  else if src = lit "all" then mergedLog logs n
  else
    match readFileLines (logs src) (256 * 1024) with
    | none => lit "(no log for " ++ src ++ lit ")\n"
    | some lines => Str.join (lit "\n") (lastOnes n lines) ++ lit "\n"

/-- The last value that the query has for a key. -/
def queryGet (query key : Str) : Option Str :=
  (((query.split 38).filter (61 ∈ ·)).reverse.find? fun pair => pair.key = key).map Str.value

/-- What `GET /api/logs` sends for a query. -/
def logsJson (logs : Str → LogFile) (query : Str) : Json :=
  let src := (queryGet query (lit "src")).getD (lit "all")
  let text := (queryGet query (lit "n")).getD (lit "200")
  let n := (Json.parseInt (if text = [] then lit "200" else text)).getD 200
  .obj [member "src" (.str src), member "log" (.str (tailLog logs src n))]

/-- `GET /api/logs` -/
def logsPage (logs : Str → LogFile) (r : Request) : Result (Nat × Json) := do
  return (200, logsJson logs (← r.query))

/-! ## The export -/

/-- `os.path.getsize`, when it does not raise. -/
def LogFile.size : LogFile → Option Nat
  | .absent => none
  | .broken _ size => size
  | .content bytes => some bytes.length

/-- `"# %-10s %s bytes"` -/
def sizeLine (logs : Str → LogFile) (mod : Str) : Str :=
  lit "# " ++ mod ++ List.replicate (10 - mod.length) 32 ++ lit " " ++
    (match (logs mod).size with
      | some size => intStr size
      | none => lit "n/a") ++ lit " bytes"

def exportRule : Str := lit "# " ++ List.replicate 64 61

/-- `export_logs`; `generated` is the time. -/
def exportLogs (logs : Str → LogFile) (generated : Printed) : Str :=
  let entries := (collectedEntries logs fun _ => 8 * 1024 * 1024).map (·.text)
  let header := [exportRule, lit "# web_zapret2 — connection log export (all modules, one file)",
    lit "# generated: " ++ generated.1, lit "# modules:   " ++ Str.join (lit " ") logModules,
    lit "# fetch:     GET /api/logs/export  (HTTP Basic auth if enabled)", exportRule] ++
      logModules.map (sizeLine logs) ++ [exportRule]
  Str.join (lit "\n") (header ++
    if entries = [] then [lit "(no log entries available across modules)"] else entries) ++ lit "\n"

end

/-! ## Every page can be sent -/

theorem encodableText_readFileLines {file : LogFile} {maxBytes : Nat} {lines : List Str}
    (h : readFileLines file maxBytes = some lines) : ∀ line ∈ lines, EncodableText line := by
  cases file with
  | absent => cases h
  | broken error size =>
    cases h
    intro line hline
    rw [List.mem_singleton.mp hline]
    simp [encodableText_append, error.2]
  | content bytes =>
    cases h
    intro line hline
    refine EncodableText.lines (Utf8.encodableText_decode (bytes.drop (bytes.length - maxBytes))) ?_
    split at hline
    · exact List.mem_of_mem_tail hline
    · exact hline

theorem encodableText_tagged {mod line : Str} (hmod : EncodableText mod) (h : EncodableText line) :
    EncodableText (tagged mod line) := by
  unfold tagged
  split
  · exact h
  · simp [encodableText_append, hmod, h]

theorem logModules_encodable : ∀ mod ∈ logModules, EncodableText mod := by decide

variable [Tables]

theorem encodableText_moduleEntries {mod : Str} (hmod : EncodableText mod) {lines : List Str}
    (hlines : ∀ line ∈ lines, EncodableText line) (rank : Nat) (lastTs : Str) (seq : Nat) :
    ∀ e ∈ moduleEntries rank mod lastTs seq lines, EncodableText e.text := by
  induction lines generalizing lastTs seq with
  | nil => exact nofun
  | cons line lines ih =>
    obtain ⟨hline, hrest⟩ := List.forall_mem_cons.mp hlines
    exact List.forall_mem_cons.mpr ⟨encodableText_tagged hmod hline, ih hrest _ _⟩

theorem encodableText_collectedEntries (logs : Str → LogFile) (tailBytes : Str → Nat) :
    ∀ e ∈ collectedEntries logs tailBytes, EncodableText e.text := by
  intro e he
  have hmem := (List.perm_insertionSort _ _).subset he
  obtain ⟨⟨mod, rank⟩, hmod, he⟩ := List.mem_flatMap.mp hmem
  have hname := logModules_encodable mod (List.fst_mem_of_mem_zipIdx hmod)
  refine encodableText_moduleEntries hname ?_ rank [] 0 e he
  cases hlines : readFileLines (logs mod) (tailBytes mod) with
  | none => exact nofun
  | some lines => exact encodableText_readFileLines hlines

omit [Tables] in
theorem encodableText_joinLines {lines : List Str} (h : ∀ line ∈ lines, EncodableText line) :
    EncodableText (Str.join (lit "\n") lines ++ lit "\n") :=
  encodableText_append.mpr ⟨(encodableText_join (encodableText_lit _)).mpr h, encodableText_lit _⟩

theorem encodableText_mergedLog (logs : Str → LogFile) (n : Nat) :
    EncodableText (mergedLog logs n) := by
  unfold mergedLog
  dsimp only
  split
  · exact encodableText_lit _
  · apply encodableText_joinLines
    intro line hline
    obtain ⟨e, he, rfl⟩ := List.mem_map.mp hline
    exact encodableText_collectedEntries _ _ e (List.mem_of_mem_drop he)

theorem encodableText_tailLog (logs : Str → LogFile) {src : Str} (hsrc : EncodableText src) (n : Int) :
    EncodableText (tailLog logs src n) := by
  unfold tailLog
  dsimp only
  split
  · exact encodableText_lit _
  split
  · exact encodableText_mergedLog logs _
  split
  · simp [encodableText_append, hsrc]
  · rename_i lines hlines
    apply encodableText_joinLines
    exact fun line hline => encodableText_readFileLines hlines line (List.mem_of_mem_drop hline)

omit [Tables] in
theorem encodableText_sizeLine (logs : Str → LogFile) {mod : Str} (hmod : EncodableText mod) :
    EncodableText (sizeLine logs mod) := by
  have hblanks (n : Nat) : EncodableText (List.replicate n 32) := by
    intro c hc
    rw [List.eq_of_mem_replicate hc]
    decide
  unfold sizeLine
  split <;> simp [encodableText_append, hmod, hblanks]

theorem encodableText_exportLogs (logs : Str → LogFile) (generated : Printed) :
    EncodableText (exportLogs logs generated) := by
  have hrule : EncodableText exportRule := by decide
  apply encodableText_joinLines
  intro line hline
  simp only [List.mem_append, List.mem_cons, List.not_mem_nil, or_false, List.mem_map] at hline
  rcases hline with ((((rfl | rfl | rfl | rfl | rfl | rfl) | ⟨mod, hmod, rfl⟩) | rfl)) | hline
  · exact hrule
  · exact encodableText_lit _
  · exact encodableText_append.mpr ⟨encodableText_lit _, generated.2⟩
  · exact encodableText_append.mpr ⟨encodableText_lit _,
      (encodableText_join (encodableText_lit _)).mpr logModules_encodable⟩
  · exact encodableText_lit _
  · exact hrule
  · exact encodableText_sizeLine logs (logModules_encodable mod hmod)
  · exact hrule
  · split at hline
    · rw [List.mem_singleton.mp hline]
      exact encodableText_lit _
    · obtain ⟨e, he, rfl⟩ := List.mem_map.mp hline
      exact encodableText_collectedEntries _ _ e he

omit [Tables] in
theorem encodableText_queryGet {query key value : Str} (h : queryGet query key = some value)
    (hquery : EncodableText query) : EncodableText value := by
  unfold queryGet at h
  obtain ⟨pair, hpair, rfl⟩ := Option.map_eq_some_iff.mp h
  have hmem := (List.mem_filter.mp (List.mem_reverse.mp (List.mem_of_find?_eq_some hpair))).1
  have hencodable : EncodableText pair := hquery.split (by decide) hmem
  exact hencodable.mono fun c hc => (List.dropWhile_sublist _).subset (List.mem_of_mem_drop hc)

theorem encodable_logsJson (logs : Str → LogFile) {query : Str} (hquery : EncodableText query) :
    (logsJson logs query).encodable = true := by
  have hsrc : EncodableText ((queryGet query (lit "src")).getD (lit "all")) := by
    cases hget : queryGet query (lit "src") with
    | none => exact encodableText_lit _
    | some value => exact encodableText_queryGet hget hquery
  simp [logsJson, member, hsrc, encodableText_tailLog logs hsrc]

/-- **The log page is sent when the target has a query.** -/
theorem logsPage_iff (logs : Str → LogFile) {r : Request} (htarget : EncodableText r.target) :
    Succeeds (logsPage logs r) (fun p => p.2.encodable = true) ↔ 63 ∈ r.target := by
  unfold logsPage Request.query
  by_cases hquery : 63 ∈ r.target
  · rw [if_pos hquery]
    refine iff_of_true ⟨_, rfl, encodable_logsJson logs ?_⟩ hquery
    exact htarget.mono fun c hc => (List.dropWhile_sublist _).subset (List.mem_of_mem_drop hc)
  · rw [if_neg hquery]
    exact iff_of_false not_succeeds_error hquery

end WebZapret.Panel.Http
