import WebZapret.Lib.Py.JsonFile

/-!
# The state files

`panel.py` and `blockcheck.py` keep their state in JSON files, which `read_json` reads and `write_json`
replaces. The catalog, the settings, the schedule and the job are modelled as values, and `none` for a
file that cannot be read. That is right: whatever is written over a file, in whatever order and whichever
writes fail, reading the file gives the value that the updates make of what was read at first
(`files_hold_values`).

A disk that fails leaves the file as it is, as does a value that cannot be printed.
-/

namespace WebZapret.Panel

open Py

/-- `json.dump(obj, f, ensure_ascii=False, indent=2)` -/
def fileStyle : Style := ⟨false, some 2⟩

/-- The octets of a file, if it is there. -/
abbrev FileBytes := Option (List Nat)

section

variable [Tables]

/-- `read_json(path)` -/
def readJson (content : FileBytes) : Option Json := content.bind loadJson

/-- `write_json(path, obj)`; `disk` says whether the directory, the temporary file and the renaming
succeed. -/
def writeJson (content : FileBytes) (x : Json) (disk : Bool) : FileBytes × Bool :=
  match dumpJson fileStyle x with
  | some bytes => if disk then (some bytes, true) else (content, false)
  | none => (content, false)

/-- What a request or a task does with a file: it reads it, and may write a value that it makes of
what it has read. -/
structure Update where
  next : Option Json → Option Json
  disk : Bool
  /-- what it writes is a value of Python, if what it reads is one -/
  proper : ∀ stored, (∀ x ∈ stored, x.Proper) → ∀ x ∈ next stored, x.Proper

/-- The file after an update, and what `write_json` returned. -/
def Update.onFile (u : Update) (content : FileBytes) : FileBytes × Option Bool :=
  match u.next (readJson content) with
  | some x => ((writeJson content x u.disk).1, some (writeJson content x u.disk).2)
  | none => (content, none)

/-- The value after an update. -/
def Update.onValue (u : Update) (stored : Option Json) : Option Json × Option Bool :=
  match u.next stored with
  | some x =>
    if u.disk = true ∧ x.encodable = true ∧ x.shortInts = true then (some x, some true)
    else (stored, some false)
  | none => (stored, none)

/-- The updates in their order, and what each returned. -/
def runUpdates {σ : Type} (step : Update → σ → σ × Option Bool) :
    List Update → σ → σ × List (Option Bool)
  | [], s => (s, [])
  | u :: us, s =>
    let rest := runUpdates step us (step u s).1
    (rest.1, (step u s).2 :: rest.2)

/-- **What was written is read.** -/
theorem readJson_writeJson [LawfulTables] {x : Json} (hproper : x.Proper) (content : FileBytes)
    (disk : Bool) :
    (readJson (writeJson content x disk).1, (writeJson content x disk).2) =
      if disk = true ∧ x.encodable = true ∧ x.shortInts = true then (some x, true)
      else (readJson content, false) := by
  have hnone := dumpJson_eq_none (rfl : fileStyle.ascii = false) hproper
  unfold writeJson
  cases hdump : dumpJson fileStyle x with
  | none =>
    have hno := hnone.mp hdump
    rw [if_neg fun h => hno h.2]
  | some bytes =>
    have hyes : x.encodable = true ∧ x.shortInts = true := by
      by_contra hno
      rw [hnone.mpr hno] at hdump
      cases hdump
    have hload : loadJson bytes = some x := loadJson_dumpJson rfl hproper hdump
    cases disk with
    | true =>
      rw [if_pos ⟨rfl, hyes⟩]
      exact congrArg (·, true) hload
    | false =>
      rw [if_neg fun h => absurd h.1 Bool.false_ne_true]
      rfl

theorem proper_of_readJson [LawfulTables] [JsonTables] {content : FileBytes} :
    ∀ x ∈ readJson content, x.Proper := by
  intro x hx
  obtain ⟨bytes, -, hload⟩ := Option.bind_eq_some_iff.mp hx
  exact (proper_of_loadJson hload).1

/-- One update does to the value in the file what it does to a value. -/
theorem onFile_onValue [LawfulTables] [JsonTables] (u : Update) (content : FileBytes) :
    (readJson (u.onFile content).1, (u.onFile content).2) = u.onValue (readJson content) := by
  unfold Update.onFile Update.onValue
  cases hnext : u.next (readJson content) with
  | none => rfl
  | some x =>
    have hproper := u.proper (readJson content) proper_of_readJson x hnext
    have hwrite := readJson_writeJson hproper content u.disk
    dsimp only
    split_ifs at hwrite ⊢ <;>
      obtain ⟨hvalue, hwritten⟩ := Prod.mk.inj hwrite <;>
      rw [hvalue, hwritten]

/-- **A state file is a variable.** After any updates of it, reading the file gives what the updates
make of the value that was in it, and every `write_json` returned whether its value was stored. -/
theorem files_hold_values [LawfulTables] [JsonTables] (us : List Update) (content : FileBytes) :
    (readJson (runUpdates Update.onFile us content).1, (runUpdates Update.onFile us content).2) =
      runUpdates Update.onValue us (readJson content) := by
  induction us generalizing content with
  | nil => rfl
  | cons u us ih =>
    have hstep := onFile_onValue u content
    have hvalue : readJson (u.onFile content).1 = (u.onValue (readJson content)).1 :=
      congrArg Prod.fst hstep
    have hwritten : (u.onFile content).2 = (u.onValue (readJson content)).2 :=
      congrArg Prod.snd hstep
    obtain ⟨hrest, hmore⟩ := Prod.mk.inj (ih (u.onFile content).1)
    unfold runUpdates
    dsimp only
    rw [hrest, hmore, hvalue, hwritten]

end

/-- Two writes, a write of a surrogate and one to a full disk. -/
def exampleUpdates [Tables] : List Update :=
  [⟨fun _ => some (.obj []), true, by
      rintro stored hstored x hx
      obtain rfl := Option.some.inj hx
      exact ⟨List.nodup_nil, trivial⟩⟩,
    ⟨fun _ => some (.obj [([105, 100], .str [233, 92, 10]), ([112], .int (-7))]), true, by
      rintro stored hstored x hx
      obtain rfl := Option.some.inj hx
      exact ⟨by decide, (by decide : IsText [105, 100]), (by decide : IsText [233, 92, 10]),
        (by decide : IsText [112]), trivial, trivial⟩⟩,
    ⟨fun _ => some (.str [55296]), true, by
      rintro stored hstored x hx
      obtain rfl := Option.some.inj hx
      exact (by decide : IsText [55296])⟩,
    ⟨fun stored => stored.map fun x => .arr [x], false, by
      rintro stored hstored x hx
      obtain ⟨y, hy, rfl⟩ := Option.map_eq_some_iff.mp hx
      exact ⟨hstored y hy, trivial⟩⟩]

/-- The file was no text at first. -/
theorem files_hold_values_example :
    letI := Tables.asciiWhole
    (readJson (runUpdates Update.onFile exampleUpdates (some [255])).1,
      (runUpdates Update.onFile exampleUpdates (some [255])).2) =
      (some (.obj [([105, 100], .str [233, 92, 10]), ([112], .int (-7))]),
        [some true, some true, some false, some false]) := by
  let _ := Tables.asciiWhole
  have hvalue : runUpdates Update.onValue exampleUpdates (readJson (some [255])) =
      (some (.obj [([105, 100], .str [233, 92, 10]), ([112], .int (-7))]),
        [some true, some true, some false, some false]) := rfl
  rw [← hvalue]
  exact @files_hold_values Tables.asciiWhole lawful_asciiWhole json_asciiWhole exampleUpdates
    (some [255])

/-- **A file that is read and written again is the same to its readers.** The write fails exactly if
there is a lone surrogate in it. -/
theorem rewritten_unchanged [Tables] [LawfulTables] [JsonTables] {bytes : List Nat} {x : Json}
    (h : loadJson bytes = some x) :
    (dumpJson fileStyle x = none ↔ ¬x.encodable = true) ∧
      ∀ rewritten, dumpJson fileStyle x = some rewritten → loadJson rewritten = some x := by
  obtain ⟨hproper, hshort⟩ := proper_of_loadJson h
  refine ⟨?_, fun rewritten => loadJson_dumpJson rfl hproper⟩
  rw [dumpJson_eq_none rfl hproper, hshort]
  simp

/-- Members in any layout, one of them twice, and an escaped pair. -/
def exampleText : List Nat :=
  [123, 34, 97, 34, 32, 58, 32, 49, 44, 32, 34, 98, 34, 58, 32, 34, 92, 117, 100, 56, 51, 100, 92,
    117, 100, 101, 48, 48, 34, 44, 32, 34, 97, 34, 58, 91, 32, 50, 32, 93, 125]

theorem rewritten_unchanged_example :
    letI := Tables.asciiWhole
    ∃ rewritten,
      dumpJson fileStyle (.obj [([97], .arr [.int 2]), ([98], .str [128512])]) = some rewritten ∧
        loadJson rewritten = some (.obj [([97], .arr [.int 2]), ([98], .str [128512])]) := by
  let _ := Tables.asciiWhole
  have hload : loadJson exampleText = some (.obj [([97], .arr [.int 2]), ([98], .str [128512])]) := rfl
  obtain ⟨hnone, hsame⟩ :=
    @rewritten_unchanged Tables.asciiWhole lawful_asciiWhole json_asciiWhole _ _ hload
  obtain ⟨rewritten, hwrite⟩ := Option.ne_none_iff_exists'.mp fun h => hnone.mp h rfl
  exact ⟨rewritten, hwrite, hsame rewritten hwrite⟩

end WebZapret.Panel
