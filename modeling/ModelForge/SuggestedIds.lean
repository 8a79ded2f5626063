import ModelForge.BundleRegistration

set_option autoImplicit false

/-!
# The ids that registrations use

A registration writes the row under the id suggested for the file it finds. The
id is made of the words in the model's name, so files whose names have the same
words share a row, and no other row is touched.
-/
namespace ModelForge.SuggestedIds

open DownloadQueue (DownloadState bundleIdentity)
open WeightFiles BundleRegistration

/-! ## Slugs and words -/

/-- The maximal runs of `[a-z0-9]`. -/
def slugWords (text : List Char) : List (List Char) :=
  (text.splitOnP fun c => !isSlugChar c).filter fun word => word ≠ []

/-- The words of a name in lower case with a dash between, up to 60 characters. -/
def suggestedId (name : List Char) : String :=
  let words := slugWords (name.flatMap lowerCase)
  if words = [] then "model" else String.ofList ((['-'].intercalate words).take 60)

theorem slugWords_cons_break {c : Char} (hc : isSlugChar c = false) (rest : List Char) :
    slugWords (c :: rest) = slugWords rest := by
  rw [slugWords, List.splitOnP_cons_eq_if_modifyHead, if_pos (by rw [hc]; rfl)]
  rfl

theorem slugWords_singleton {c : Char} (hc : isSlugChar c = true) : slugWords [c] = [[c]] := by
  rw [slugWords, List.splitOnP_cons_eq_if_modifyHead, if_neg (by simp [hc]), List.splitOnP_nil]
  rfl

/-- A word that ends at a break. -/
theorem slugWords_cons_end {c d : Char} (hc : isSlugChar c = true) (hd : isSlugChar d = false)
    (rest : List Char) : slugWords (c :: d :: rest) = [c] :: slugWords rest := by
  rw [slugWords, List.splitOnP_cons_eq_if_modifyHead, if_neg (by simp [hc]),
    List.splitOnP_cons_eq_if_modifyHead, if_pos (by simp [hd])]
  rfl

/-- A word that goes on. -/
theorem slugWords_cons_word {c d : Char} (hc : isSlugChar c = true) (hd : isSlugChar d = true)
    (rest : List Char) :
    ∃ word words, slugWords (d :: rest) = word :: words ∧ slugWords (c :: d :: rest) = (c :: word) :: words := by
  obtain ⟨word, words, hsplit⟩ :=
    List.exists_cons_of_ne_nil (List.splitOnP_ne_nil (fun c => !isSlugChar c) rest)
  have hrest : (d :: rest).splitOnP (fun c => !isSlugChar c) = (d :: word) :: words := by
    rw [List.splitOnP_cons_eq_if_modifyHead, if_neg (by simp [hd]), hsplit, List.modifyHead_cons]
  refine ⟨d :: word, words.filter fun word => word ≠ [], ?_, ?_⟩
  · rw [slugWords, hrest]
    rfl
  · rw [slugWords, List.splitOnP_cons_eq_if_modifyHead, if_neg (by simp [hc]), hrest,
      List.modifyHead_cons]
    rfl

theorem rdropWhile_cons {α : Type} (p : α → Bool) (a : α) (l : List α) :
    (a :: l).rdropWhile p = if l.rdropWhile p = [] ∧ p a = true then [] else a :: l.rdropWhile p := by
  simp only [List.rdropWhile, List.reverse_cons, List.dropWhile_append, List.isEmpty_iff,
    List.reverse_eq_nil_iff]
  by_cases hl : l.reverse.dropWhile p = []
  · cases hp : p a <;> simp [hl, hp]
  · simp [hl]

/-- What a run of dashes is before the rest of the words. -/
def joined (text : List Char) : List Char := ['-'].intercalate (slugWords text)

theorem joined_cons_break {c : Char} (hc : isSlugChar c = false) (rest : List Char) :
    joined (c :: rest) = joined rest := by
  rw [joined, slugWords_cons_break hc, joined]

theorem slugWords_ne_nil_mem {text word : List Char} (h : word ∈ slugWords text) : word ≠ [] := by
  simpa using (List.mem_filter.mp h).2

theorem joined_eq_nil {text : List Char} : joined text = [] ↔ slugWords text = [] := by
  constructor
  · intro h
    cases hwords : slugWords text with
    | nil => rfl
    | cons word words =>
      have hword : word ≠ [] := slugWords_ne_nil_mem (hwords ▸ List.mem_cons_self)
      obtain ⟨c, rest, rfl⟩ := List.exists_cons_of_ne_nil hword
      rw [joined, hwords] at h
      cases words <;> simp [List.intercalate] at h
  · intro h
    rw [joined, h]
    rfl

/-- The text of a name after its first character, which belongs to a word. -/
def continued : List Char → List Char
  | [] => []
  | d :: rest =>
    if isSlugChar d then joined (d :: rest)
    else if joined rest = [] then [] else '-' :: joined rest

theorem joined_cons_word {c : Char} (hc : isSlugChar c = true) (rest : List Char) :
    joined (c :: rest) = c :: continued rest := by
  cases rest with
  | nil =>
    rw [joined, slugWords_singleton hc]
    rfl
  | cons d rest =>
    cases hd : isSlugChar d with
    | true =>
      obtain ⟨word, words, hrest, hwhole⟩ := slugWords_cons_word hc hd rest
      rw [joined, hwhole, continued, if_pos hd, joined, hrest]
      cases words <;> rfl
    | false =>
      rw [joined, slugWords_cons_end hc hd, continued, if_neg (by simp [hd])]
      by_cases hnil : joined rest = []
      · rw [if_pos hnil, joined_eq_nil.mp hnil]
        rfl
      · rw [if_neg hnil]
        obtain ⟨word, words, hwords⟩ := List.exists_cons_of_ne_nil fun h => hnil (joined_eq_nil.mpr h)
        rw [joined, hwords]
        rfl

theorem slugChar_ne_dash {c : Char} (hc : isSlugChar c = true) : c ≠ '-' := by
  rintro rfl
  exact absurd hc (by decide)

/-- Without the dashes at its end, what `dashRuns` writes is the words joined;
where no dash was written before, one may come first. -/
theorem rdropWhile_dashRuns (text : List Char) :
    (dashRuns true text).rdropWhile (fun c => c = '-') = joined text ∧
      (dashRuns false text).rdropWhile (fun c => c = '-') = continued text := by
  induction text with
  | nil => exact ⟨rfl, rfl⟩
  | cons c rest ih =>
    cases hc : isSlugChar c with
    | true =>
      have hword : (c :: dashRuns false rest).rdropWhile (fun c => c = '-') = joined (c :: rest) := by
        rw [rdropWhile_cons, if_neg (by simp [slugChar_ne_dash hc]), ih.2, joined_cons_word hc]
      refine ⟨?_, ?_⟩
      · rw [dashRuns, if_pos hc, hword]
      · rw [dashRuns, if_pos hc, hword, continued, if_pos hc]
    | false =>
      refine ⟨?_, ?_⟩
      · rw [dashRuns, if_neg (by simp [hc]), if_pos rfl, ih.1, joined_cons_break hc]
      · rw [dashRuns, if_neg (by simp [hc]), if_neg (by simp), rdropWhile_cons, ih.1, continued]
        simp [hc]

/-- After a dash comes no other one. -/
theorem dropWhile_dashRuns (text : List Char) :
    (dashRuns true text).dropWhile (fun c => c = '-') = dashRuns true text := by
  induction text with
  | nil => rfl
  | cons c rest ih =>
    cases hc : isSlugChar c with
    | true => rw [dashRuns, if_pos hc, List.dropWhile_cons_of_neg (by simp [slugChar_ne_dash hc])]
    | false =>
      rw [dashRuns, if_neg (by simp [hc]), if_pos rfl]
      exact ih

theorem trimDashes_dashRuns (text : List Char) : trimDashes (dashRuns false text) = joined text := by
  unfold trimDashes
  cases text with
  | nil => rfl
  | cons c rest =>
    cases hc : isSlugChar c with
    | true =>
      have hfirst : (dashRuns false (c :: rest)).dropWhile (fun c => c = '-') =
          dashRuns false (c :: rest) := by
        rw [dashRuns, if_pos hc, List.dropWhile_cons_of_neg (by simp [slugChar_ne_dash hc])]
      rw [hfirst, (rdropWhile_dashRuns (c :: rest)).2, continued, if_pos hc]
    | false =>
      have hfirst : dashRuns false (c :: rest) = '-' :: dashRuns true rest := by
        rw [dashRuns, if_neg (by simp [hc]), if_neg (by simp)]
      rw [hfirst, List.dropWhile_cons_of_pos (by simp), dropWhile_dashRuns,
        (rdropWhile_dashRuns rest).1, joined_cons_break hc]

/-- The slug is made of the words. -/
theorem toSlug_eq_suggestedId (name : List Char) : toSlug name = suggestedId name := by
  unfold toSlug suggestedId
  dsimp only
  rw [trimDashes_dashRuns]
  by_cases hwords : slugWords (name.flatMap lowerCase) = []
  · rw [if_pos hwords, joined_eq_nil.mpr hwords]
    rfl
  · have hjoined : (joined (name.flatMap lowerCase)).take 60 ≠ [] := by
      intro h
      rcases List.take_eq_nil_iff.mp h with h | h
      · exact absurd h (by decide)
      · exact hwords (joined_eq_nil.mp h)
    rw [if_neg hwords, if_neg hjoined, joined]

/-! ## The rows -/

theorem walk_described {tree : Tree} {levels : ℕ} {dir : List String} {d : DiscoveredWeight}
    (h : d ∈ walk tree levels dir) : ∃ path sizeBytes, d = describe path sizeBytes := by
  induction levels generalizing dir with
  | zero => cases h
  | succ levels ih =>
    obtain ⟨entry, -, hentry⟩ := List.mem_flatMap.mp h
    split at hentry
    · split at hentry
      · cases hentry
      · exact ih hentry
    · split at hentry
      · exact ⟨_, _, List.mem_singleton.mp hentry⟩
      · cases hentry
    · cases hentry

/-- The id that a file's path suggests. -/
def idOf (path : String) : String := suggestedId (modelName (basename path))

theorem suggestedModelId_eq {c : CanonicalJson.Collation} {tree : Tree} {d : DiscoveredWeight}
    (h : d ∈ scanWeights c tree) : d.suggestedModelId = idOf d.relativePath := by
  obtain ⟨path, sizeBytes, rfl⟩ := walk_described ((List.mem_insertionSort _).mp h)
  rw [describe_suggestedModelId, describe_relativePath, toSlug_eq_suggestedId, idOf]

/-- A completed download whose registration goes on, with the weights directory
as its scan finds it. -/
structure Registration where
  state : DownloadState
  weights : Tree

/-- The file that the registration finds. -/
def discovered (c : CanonicalJson.Collation) (e : Registration) : Option DiscoveredWeight :=
  let path := relativePathOf e.state.repoId e.state.filePath
  (scanWeights c e.weights).find? fun file =>
    file.relativePath = path ∨ bundleIdentity file.relativePath = bundleIdentity path

def rowOf (d : DiscoveredWeight) : HostedModel :=
  ⟨d.suggestedDisplayName, d.relativePath, d.quantization⟩

theorem register_discovered (c : CanonicalJson.Collation) (e : Registration)
    (registry : KeyedMap String HostedModel) :
    register c e.weights e.state registry =
      match discovered c e with
      | none => registry
      | some d => registry.set (idOf d.relativePath) (rowOf d) := by
  unfold register
  change (match discovered c e with | none => _ | some d => _) = _
  cases h : discovered c e with
  | none => rfl
  | some d =>
    dsimp only
    rw [suggestedModelId_eq (List.mem_of_find?_eq_some h)]
    rfl

/-- The registrations of a sequence of completed downloads. -/
def registerAll (c : CanonicalJson.Collation) (registry : KeyedMap String HostedModel)
    (events : List Registration) : KeyedMap String HostedModel :=
  events.foldl (fun registry e => register c e.weights e.state registry) registry

/-- The last file that is registered under an id. -/
def lastRegistered (c : CanonicalJson.Collation) (events : List Registration) (id : String) :
    Option DiscoveredWeight :=
  (events.filterMap (discovered c)).reverse.find? fun d => idOf d.relativePath = id

theorem lastRegistered_none {c : CanonicalJson.Collation} {e : Registration}
    (h : discovered c e = none) (rest : List Registration) (id : String) :
    lastRegistered c (e :: rest) id = lastRegistered c rest id := by
  rw [lastRegistered, List.filterMap_cons, h, lastRegistered]

theorem lastRegistered_some {c : CanonicalJson.Collation} {e : Registration} {d : DiscoveredWeight}
    (h : discovered c e = some d) (rest : List Registration) (id : String) :
    lastRegistered c (e :: rest) id =
      (lastRegistered c rest id).or (if idOf d.relativePath = id then some d else none) := by
  rw [lastRegistered, List.filterMap_cons, h]
  simp only [List.reverse_cons, List.find?_append, List.find?_singleton, lastRegistered,
    decide_eq_true_eq]

/-- A row is the one of the last file registered under its id. -/
theorem get?_registerAll (c : CanonicalJson.Collation) (registry : KeyedMap String HostedModel)
    (events : List Registration) (id : String) :
    (registerAll c registry events).get? id =
      ((lastRegistered c events id).map rowOf).or (registry.get? id) := by
  induction events generalizing registry with
  | nil => rfl
  | cons e rest ih =>
    change (registerAll c (register c e.weights e.state registry) rest).get? id = _
    rw [ih, register_discovered]
    cases hfound : discovered c e with
    | none => rw [lastRegistered_none hfound]
    | some d =>
      rw [lastRegistered_some hfound, KeyedMap.get?_set]
      by_cases hid : id = idOf d.relativePath
      · rw [if_pos hid, if_pos hid.symm]
        cases lastRegistered c rest id <;> rfl
      · rw [if_neg hid, if_neg (Ne.symm hid)]
        cases lastRegistered c rest id <;> rfl

/-- In any sequence of completed downloads, the row that one of them wrote has
its weights in the end exactly if the last one after it whose file has the same
suggested id, if there is one, found the same file: another id never touches it. -/
theorem row_kept_iff (c : CanonicalJson.Collation) (registry : KeyedMap String HostedModel)
    (before : List Registration) (e : Registration) (after : List Registration)
    (d : DiscoveredWeight) (hd : discovered c e = some d) :
    ((registerAll c registry (before ++ e :: after)).get? (idOf d.relativePath)).map
        HostedModel.weightsPath = some d.relativePath ↔
      ∀ d' ∈ lastRegistered c after (idOf d.relativePath), d'.relativePath = d.relativePath := by
  have happend : registerAll c registry (before ++ e :: after) =
      registerAll c (register c e.weights e.state (registerAll c registry before)) after := by
    rw [registerAll, List.foldl_append]
    rfl
  rw [happend, get?_registerAll, register_discovered, hd, KeyedMap.get?_set_self]
  cases hlast : lastRegistered c after (idOf d.relativePath) with
  | none => simp [rowOf]
  | some d' => simp [rowOf]

/-- The bundle of a download: its repository, and its file's name without a shard suffix. -/
def bundleOf (e : Registration) : String × String :=
  (e.state.repoId, bundleIdentity e.state.filePath)

/-- Where the downloads are of distinct bundles, none changes the row of another. -/
def Undisturbed (c : CanonicalJson.Collation) (registry : KeyedMap String HostedModel)
    (events : List Registration) : Prop :=
  (events.map bundleOf).Nodup →
    ∀ before e after d, events = before ++ e :: after → discovered c e = some d →
      ((registerAll c registry events).get? (idOf d.relativePath)).map HostedModel.weightsPath =
        some d.relativePath

/-- A completed download of one file, with the weights directory after it. -/
def downloaded (fileName : String) (parts : List String) : Registration :=
  ⟨{ id := "a", repoId := "org/repo", filePath := fileName,
     destination := relativePathOf "org/repo" fileName, status := .completed, error := none,
     register := true, attempt := 1 }, sampleWeights parts⟩

/-- Two models, the second one with a name of its own. -/
def namedApart : List Registration :=
  [downloaded "m-Q4_K_M.gguf" ["m-Q4_K_M.gguf"],
    downloaded "n-Q4_K_M.gguf" ["m-Q4_K_M.gguf", "n-Q4_K_M.gguf"]]

theorem named_apart_kept :
    ((registerAll sampleCollation .empty namedApart).get?
        (idOf "huggingface/org/repo/m-Q4_K_M.gguf")).map HostedModel.weightsPath =
      some "huggingface/org/repo/m-Q4_K_M.gguf" :=
  (row_kept_iff sampleCollation .empty [] _ [namedApart.getLast (by decide)]
    (describe "huggingface/org/repo/m-Q4_K_M.gguf" 1) (by decide +kernel)).mpr (by decide +kernel)

/-- Two quantizations of one model. -/
def twoQuantizations : List Registration :=
  [downloaded "m-Q4_K_M.gguf" ["m-Q4_K_M.gguf"],
    downloaded "m-Q8_0.gguf" ["m-Q4_K_M.gguf", "m-Q8_0.gguf"]]

theorem second_quantization_takes_row : ¬ Undisturbed sampleCollation .empty twoQuantizations := by
  intro h
  have hkept := h (by decide +kernel) [] _ [twoQuantizations.getLast (by decide)]
    (describe "huggingface/org/repo/m-Q4_K_M.gguf" 1) rfl (by decide +kernel)
  exact absurd hkept (by decide +kernel)

end ModelForge.SuggestedIds
