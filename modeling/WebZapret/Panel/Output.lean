import WebZapret.Lib.Py.JsonDelimit
import WebZapret.Panel.Collect
import WebZapret.Panel.JsonFiles

/-!
# The output of a run

`wz-bcw.sh` prints `result.json`, and `_bcw_collect` takes the first JSON value from the first brace of
the output on. Nothing in the pipe says whether the output is whole: a run that is cancelled takes the
harness with it. What is collected is the result all the same, wherever the output ends
(`collected_result`): what is decoded is the whole result or nothing, and without anything the file is
read.
-/

namespace WebZapret.Panel.Http

open Py Utf8

section

variable [Tables]

/-- `out.find(b"{")` and what is decoded from there on. -/
def decodedOutput (out : List Nat) : Option Json :=
  match out.dropWhile (· ≠ 123) with
  | [] => none
  | brace :: rest => (Scan.rawDecode (decode (brace :: rest))).map (·.1)

/-- What `_bcw_collect` finds, from the bytes of the output and of `result.json`. -/
def collectBytes (runId : Str) (rc : Int) (out : List Nat) (file : FileBytes) (imported : Imported) :
    CollectEnv :=
  ⟨runId, rc, decodedOutput out, readJson file, imported⟩

theorem decodedOutput_brace {noise rest : List Nat} (h : 123 ∉ noise) :
    decodedOutput (noise ++ 123 :: rest) = (Scan.rawDecode (decode (123 :: rest))).map (·.1) := by
  have hnoise : ∀ b ∈ noise, decide (b ≠ 123) = true := by
    intro b hb
    rw [decide_eq_true_eq]
    rintro rfl
    exact h hb
  rw [decodedOutput, List.dropWhile_append_of_pos hnoise, List.dropWhile_cons_of_neg (by simp)]

theorem decodedOutput_none {noise : List Nat} (h : 123 ∉ noise) : decodedOutput noise = none := by
  have hnoise : ∀ b ∈ noise, decide (b ≠ 123) = true := by
    intro b hb
    rw [decide_eq_true_eq]
    rintro rfl
    exact h hb
  rw [decodedOutput, List.dropWhile_eq_nil_iff.mpr hnoise]

/-- The file of an object begins with its brace, and so does its text. -/
theorem dumps_obj (ms : Dict) : ∃ text, fileStyle.dumps (.obj ms) = 123 :: text := by
  rw [Style.dumps, Style.value]
  exact ⟨_, rfl⟩

variable [LawfulTables] {ms : Dict} {bytes noise : List Nat}

/-- The whole output is decoded to the result, whatever comes after it. -/
theorem decodedOutput_whole (hproper : (Json.obj ms).Proper)
    (hfile : dumpJson fileStyle (.obj ms) = some bytes) (hnoise : 123 ∉ noise) (more : List Nat) :
    decodedOutput (noise ++ (bytes ++ more)) = some (.obj ms) := by
  obtain ⟨rfl, hkeeps, htext, hencodable⟩ := dumpJson_eq_some rfl hproper hfile
  have hdecode := decode_flatMap htext hencodable more
  have hraw : Scan.rawDecode (fileStyle.dumps (.obj ms) ++ decode more) = some (.obj ms, decode more) :=
    Scan.rawDecode_dumps hkeeps trivial
  obtain ⟨text, hstart⟩ := dumps_obj ms
  rw [← hdecode] at hraw
  rw [hstart, List.flatMap_cons] at hraw ⊢
  rw [List.append_assoc] at hraw ⊢
  exact (decodedOutput_brace hnoise).trans (congrArg (Option.map (·.1)) hraw)

/-- Nothing is decoded from a beginning of it. -/
theorem decodedOutput_part (hproper : (Json.obj ms).Proper)
    (hfile : dumpJson fileStyle (.obj ms) = some bytes) (hnoise : 123 ∉ noise) {n : Nat}
    (hn : n < bytes.length) : decodedOutput (noise ++ bytes.take n) = none := by
  obtain ⟨rfl, hkeeps, htext, hencodable⟩ := dumpJson_eq_some rfl hproper hfile
  obtain ⟨front, extra, hdecode, hpre, hcut, hextra⟩ := decode_take htext hencodable hn
  have hwhole : Scan.rawDecode (fileStyle.dumps (.obj ms)) = some (.obj ms, []) := by
    have hraw : Scan.rawDecode (fileStyle.dumps (.obj ms) ++ []) = some (.obj ms, []) :=
      Scan.rawDecode_dumps hkeeps trivial
    rwa [List.append_nil] at hraw
  obtain ⟨text, hstart⟩ := dumps_obj ms
  cases n with
  | zero =>
    rw [List.take_zero, List.append_nil]
    exact decodedOutput_none hnoise
  | succ n =>
    have hbrace : ((fileStyle.dumps (.obj ms)).flatMap octets).take (n + 1) =
        123 :: (text.flatMap octets).take n := by
      rw [hstart, List.flatMap_cons]
      rfl
    have hfirst : front ≠ [] := by
      rintro rfl
      rw [hbrace] at hdecode
      have hhead : 123 :: decodeFrom none ((text.flatMap octets).take n) = extra := hdecode
      rcases hextra with rfl | rfl
      · cases hhead
      · exact absurd (List.cons.inj hhead).1 (by decide)
    have hsmall : extra.length ≤ 1 ∧ 125 ∉ extra := by rcases hextra with rfl | rfl <;> decide
    have hnone := Scan.rawDecode_prefix hwhole hpre hfirst hcut hsmall
    rw [hbrace] at hdecode ⊢
    rw [decodedOutput_brace hnoise, hdecode, hnone]
    rfl

/-- **The result of a run is collected wherever its output ends.** The output is a beginning of the
result file or has anything after it, and no brace before it. -/
theorem collected_result (hproper : (Json.obj ms).Proper) (hne : ms ≠ [])
    (hfile : dumpJson fileStyle (.obj ms) = some bytes) {part : List Nat} (hnoise : 123 ∉ noise)
    (hpart : part <+: bytes ∨ bytes <+: part) (runId : Str) (rc : Int) (imported : Imported) :
    (collectBytes runId rc (noise ++ part) (some bytes) imported).result = .obj ms := by
  obtain ⟨m, ms, rfl⟩ := List.exists_cons_of_ne_nil hne
  have hstored : readJson (some bytes) = some (.obj (m :: ms)) := loadJson_dumpJson rfl hproper hfile
  have houtput : decodedOutput (noise ++ part) = some (.obj (m :: ms)) ∨
      decodedOutput (noise ++ part) = none := by
    by_cases hwhole : bytes <+: part
    · obtain ⟨more, rfl⟩ := hwhole
      exact .inl (decodedOutput_whole hproper hfile hnoise more)
    · have hpre := hpart.resolve_right hwhole
      have hlength : part.length < bytes.length := by
        by_contra hlong
        exact hwhole (hpre.eq_of_length_le (not_lt.mp hlong) ▸ List.prefix_rfl)
      rw [List.prefix_iff_eq_take.mp hpre]
      exact .inr (decodedOutput_part hproper hfile hnoise hlength)
  unfold CollectEnv.result collectBytes
  dsimp only
  rcases houtput with h | h <;>
    rw [h]
  rw [hstored]
  rfl

end

/-- A result of which nine bytes arrive, after a line. -/
theorem collected_result_cut :
    letI := Tables.asciiWhole
    ∃ bytes, dumpJson fileStyle (.obj [([111, 107], .bool true), ([101], .str [233])]) = some bytes ∧
      (collectBytes [] 1 ([10] ++ bytes.take 9) (some bytes) (.refused [] none)).result =
        .obj [([111, 107], .bool true), ([101], .str [233])] := by
  let _ := Tables.asciiWhole
  have hproper : (Json.obj [([111, 107], .bool true), ([101], .str [233])]).Proper :=
    ⟨by decide, (by decide : IsText [111, 107]), trivial, (by decide : IsText [101]),
      (by decide : IsText [233]), trivial⟩
  have hsome : dumpJson fileStyle (.obj [([111, 107], .bool true), ([101], .str [233])]) ≠ none := by
    intro hnone
    exact (dumpJson_eq_none rfl hproper).mp hnone ⟨rfl, rfl⟩
  obtain ⟨bytes, hbytes⟩ := Option.ne_none_iff_exists'.mp hsome
  exact ⟨bytes, hbytes, @collected_result Tables.asciiWhole lawful_asciiWhole _ _ _ hproper
    (List.cons_ne_nil _ _) hbytes _ (by decide) (.inl (List.take_prefix 9 bytes)) [] 1
    (.refused [] none)⟩

end WebZapret.Panel.Http
