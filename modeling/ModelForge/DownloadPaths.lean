import ModelForge.PosixPath
import ModelForge.StreamDecoding
import ModelForge.WeightFiles

set_option autoImplicit false

/-!
# Where a download is stored

The checks on a repository id and a file path, and the path below the weights
directory that is made of them.
-/
namespace ModelForge.DownloadPaths

open PosixPath

/-! ## The checks -/

/-- `[A-Za-z0-9._-]` -/
def isRepoChar (c : Char) : Bool := c.isAlphanum || c = '.' || c = '_' || c = '-'

/-- `[A-Za-z0-9][A-Za-z0-9._-]{0,more}` -/
def isRepoPart (more : ℕ) : List Char → Bool
  | [] => false
  | c :: rest => c.isAlphanum && rest.all isRepoChar && rest.length ≤ more

/-- `REPO_PATTERN.test(repoId)` -/
def REPO_PATTERN (repoId : String) : Bool :=
  match repoId.toList.splitOn '/' with
  | [owner, repo] => isRepoPart 95 owner && isRepoPart 191 repo
  | _ => false

def validateRepoId (repoId : String) : Except String String :=
  if REPO_PATTERN repoId then .ok repoId else .error "Invalid Hugging Face repository id"

/-- `filePath.replace(/\\/g, "/")` -/
def normalized (filePath : String) : String :=
  String.ofList (filePath.toList.map fun c => if c = '\\' then '/' else c)

def validateFilePath (filePath : String) : Except String String :=
  let normalized := normalized filePath
  if ¬ WeightFiles.endsWithGguf normalized.toList ∨ isAbsolute normalized ∨
      (segments normalized).any fun part => part = ".." || part = "" || part = "." then
    .error "Only safe relative GGUF paths can be downloaded"
  else .ok normalized

/-! ## The destination -/

/-- An absolute path as a text. -/
def absolutePath (path : List String) : String := "/" ++ render path

structure Destination where
  absolute : String
  relative : String
  deriving DecidableEq

def safeDestination (root : List String) (repoId filePath : String) : Except String Destination :=
  match validateRepoId repoId, validateFilePath filePath with
  | .error error, _ => .error error
  | _, .error error => .error error
  | .ok repoId, .ok safeFilePath =>
    let ownerAndRepo := (segments repoId).take 2
    let relative := render ("huggingface" :: ownerAndRepo ++ segments safeFilePath)
    let absolute := absolutePath ((segments relative).foldl resolve root)
    if (absolutePath root ++ "/").toList.isPrefixOf absolute.toList then .ok ⟨absolute, relative⟩
    else .error "Unsafe destination path"

/-! ## Accepted inputs -/

theorem render_segments (text : String) : render (segments text) = text := by
  apply String.toList_inj.mp
  have htext : (render (segments text)).toList = ['/'].intercalate ((segments text).map String.toList) :=
    String.toList_intercalate
  have hparts : (segments text).map String.toList = text.toList.splitOn '/' := by
    rw [segments, List.map_map]
    exact List.map_id'' (fun cs => by simp) _
  rw [htext, hparts, List.intercalate_splitOn]

theorem mem_segments {text part : String} (h : part ∈ segments text) : '/' ∉ part.toList := by
  obtain ⟨cs, hcs, rfl⟩ := List.mem_map.mp h
  rw [String.toList_ofList]
  exact StreamDecoding.not_mem_of_mem_splitOn hcs

theorem isRepoPart_isName {more : ℕ} {text : List Char} (h : isRepoPart more text = true)
    (hslash : '/' ∉ text) : IsName (String.ofList text) := by
  cases text with
  | nil => simp [isRepoPart] at h
  | cons c rest =>
    have hc : c.isAlphanum = true := by
      simp only [isRepoPart, Bool.and_eq_true] at h
      exact h.1.1
    have hhead : ∀ name : String, name.toList.head? = some '.' → String.ofList (c :: rest) ≠ name := by
      intro name hname heq
      rw [← heq, String.toList_ofList, List.head?_cons, Option.some.injEq] at hname
      rw [hname] at hc
      exact absurd hc (by decide)
    refine ⟨?_, hhead "." (by decide), hhead ".." (by decide), by simpa using hslash⟩
    intro heq
    simpa using congrArg String.toList heq

structure Accepted (repoId filePath : String) : Prop where
  repo : ∃ owner name, segments repoId = [owner, name] ∧ IsName owner ∧ IsName name
  file : ∀ part ∈ segments (normalized filePath), IsName part

theorem validateRepoId_ok {repoId checked : String} (h : validateRepoId repoId = .ok checked) :
    checked = repoId ∧ ∃ owner name, segments repoId = [owner, name] ∧ IsName owner ∧ IsName name := by
  unfold validateRepoId at h
  split_ifs at h with hpattern
  refine ⟨(Except.ok.inj h).symm, ?_⟩
  unfold REPO_PATTERN at hpattern
  split at hpattern
  case h_1 owner name hsplit =>
    rw [Bool.and_eq_true] at hpattern
    have hslash : ∀ part ∈ repoId.toList.splitOn '/', '/' ∉ part :=
      fun part hpart => StreamDecoding.not_mem_of_mem_splitOn hpart
    rw [hsplit] at hslash
    refine ⟨String.ofList owner, String.ofList name, ?_, ?_, ?_⟩
    · rw [segments, hsplit]
      rfl
    · exact isRepoPart_isName hpattern.1 (hslash owner (by simp))
    · exact isRepoPart_isName hpattern.2 (hslash name (by simp))
  case h_2 => cases hpattern

theorem validateFilePath_ok {filePath checked : String} (h : validateFilePath filePath = .ok checked) :
    checked = normalized filePath ∧ ∀ part ∈ segments (normalized filePath), IsName part := by
  simp only [validateFilePath] at h
  split_ifs at h with hbad
  refine ⟨(Except.ok.inj h).symm, ?_⟩
  intro part hpart
  have hany : ¬ (segments (normalized filePath)).any
      (fun part => part = ".." || part = "" || part = ".") = true :=
    fun hany => hbad (.inr (.inr hany))
  have hno : ¬ (part = ".." ∨ part = "" ∨ part = ".") := by
    intro hpart'
    apply hany
    rw [List.any_eq_true]
    exact ⟨part, hpart, by simpa [or_assoc] using hpart'⟩
  push Not at hno
  exact ⟨hno.2.1, hno.2.2, hno.1, mem_segments hpart⟩

/-! ## What the destination is -/

/-- The names below the weights directory. -/
def below (repoId filePath : String) : List String :=
  "huggingface" :: segments repoId ++ segments (normalized filePath)

theorem below_isName {repoId filePath : String} (h : Accepted repoId filePath) :
    ∀ name ∈ below repoId filePath, IsName name := by
  obtain ⟨owner, repo, hrepo, howner, hname⟩ := h.repo
  intro name hmem
  rw [below, hrepo] at hmem
  simp only [List.cons_append, List.nil_append, List.mem_cons] at hmem
  cases hmem with
  | inl hmem =>
    rw [hmem]
    decide
  | inr hmem =>
    cases hmem with
    | inl hmem => rwa [hmem]
    | inr hmem =>
      cases hmem with
      | inl hmem => rwa [hmem]
      | inr hmem => exact h.file name hmem

theorem isAbsolute_name {name : String} (h : IsName name) : isAbsolute name = false := by
  have hrender := @isAbsolute_render [name] (by simpa using h)
  rwa [render, String.intercalate_singleton] at hrender

theorem foldl_resolve {path : List String} (h : ∀ name ∈ path, IsName name) (dir : List String) :
    path.foldl resolve dir = dir ++ path := by
  induction path generalizing dir with
  | nil => simp
  | cons name path ih =>
    have hname := h name List.mem_cons_self
    have hstep : resolve dir name = dir ++ [name] := by
      rw [resolve, isAbsolute_name hname, if_neg (by simp), join_name hname]
    rw [List.foldl_cons, hstep, ih fun other hother => h other (List.mem_cons_of_mem _ hother),
      List.append_assoc, List.singleton_append]

theorem prefix_absolutePath {root : List String} (hroot : root ≠ []) (name : String) (path : List String) :
    (absolutePath root ++ "/").toList.isPrefixOf (absolutePath (root ++ name :: path)).toList = true := by
  rw [List.isPrefixOf_iff_prefix]
  have hsplit : render (root ++ name :: path) = render root ++ "/" ++ render (name :: path) :=
    String.intercalate_append_of_ne_nil hroot (by simp)
  refine ⟨(render (name :: path)).toList, ?_⟩
  rw [absolutePath, absolutePath, hsplit]
  simp only [String.toList_append, List.append_assoc]

theorem safeDestination_spec {root : List String} {repoId filePath : String} {destination : Destination}
    (h : safeDestination root repoId filePath = .ok destination) :
    Accepted repoId filePath ∧ destination.absolute = absolutePath (root ++ below repoId filePath) := by
  unfold safeDestination at h
  split at h
  case h_1 => cases h
  case h_2 => cases h
  case h_3 checkedId checkedPath hid hpath =>
    obtain ⟨rfl, hrepo⟩ := validateRepoId_ok hid
    obtain ⟨rfl, hfile⟩ := validateFilePath_ok hpath
    have haccepted : Accepted checkedId filePath := ⟨hrepo, hfile⟩
    refine ⟨haccepted, ?_⟩
    obtain ⟨owner, name, hsegments, _⟩ := hrepo
    have htake : (segments checkedId).take 2 = segments checkedId := by rw [hsegments]; rfl
    have hnames := below_isName haccepted
    have hrelative : segments (render (below checkedId filePath)) = below checkedId filePath :=
      segments_render (by simp [below]) hnames
    simp only [htake] at h
    rw [show "huggingface" :: segments checkedId ++ segments (normalized filePath) =
      below checkedId filePath from rfl, hrelative, foldl_resolve hnames] at h
    split_ifs at h
    cases h
    rfl

theorem safeDestination_ok {root : List String} (hroot : root ≠ []) {repoId filePath checkedId checkedPath : String}
    (hid : validateRepoId repoId = .ok checkedId) (hpath : validateFilePath filePath = .ok checkedPath) :
    safeDestination root repoId filePath =
      .ok ⟨absolutePath (root ++ below repoId filePath), render (below repoId filePath)⟩ := by
  obtain ⟨rfl, hrepo⟩ := validateRepoId_ok hid
  obtain ⟨rfl, hfile⟩ := validateFilePath_ok hpath
  have hnames := below_isName ⟨hrepo, hfile⟩
  obtain ⟨owner, name, hsegments, _⟩ := hrepo
  have htake : (segments checkedId).take 2 = segments checkedId := by rw [hsegments]; rfl
  have hrelative : segments (render (below checkedId filePath)) = below checkedId filePath :=
    segments_render (by simp [below]) hnames
  have hbelow : "huggingface" :: segments checkedId ++ segments (normalized filePath) =
    below checkedId filePath := rfl
  have hprefix : (absolutePath root ++ "/").toList.isPrefixOf
      (absolutePath (root ++ below checkedId filePath)).toList = true :=
    prefix_absolutePath hroot "huggingface" (segments checkedId ++ segments (normalized filePath))
  simp only [safeDestination, hid, hpath, htake]
  rw [hbelow, hrelative, foldl_resolve hnames, if_pos hprefix]

/-- The path that an absolute text names is below the root, not the root itself. -/
def StrictlyInside (root : List String) (absolute : String) : Prop :=
  ∃ path, path ≠ [] ∧ (∀ name ∈ path, IsName name) ∧ absolute = absolutePath (root ++ path)

theorem absolutePath_inj {path other : List String} (hpath : ∀ name ∈ path, IsName name)
    (hother : ∀ name ∈ other, IsName name) (hne : path ≠ []) (hne' : other ≠ [])
    (h : absolutePath path = absolutePath other) : path = other :=
  render_injective hpath hother hne hne' (String.append_right_inj "/" |>.mp h)

theorem below_inj {repoId filePath repoId' filePath' : String} (h : Accepted repoId filePath)
    (h' : Accepted repoId' filePath') (heq : below repoId filePath = below repoId' filePath') :
    repoId = repoId' ∧ normalized filePath = normalized filePath' := by
  obtain ⟨owner, name, hrepo, _⟩ := h.repo
  obtain ⟨owner', name', hrepo', _⟩ := h'.repo
  simp only [below, hrepo, hrepo', List.cons_append, List.nil_append, List.cons.injEq, true_and] at heq
  obtain ⟨rfl, rfl, hfile⟩ := heq
  constructor
  · rw [← render_segments repoId, hrepo, ← hrepo', render_segments]
  · rw [← render_segments (normalized filePath), hfile, render_segments]

/-- A destination is strictly below the root, and no other repository or file has
the same. Below a root other than the top every accepted input has one. -/
theorem destinations_apart (root : List String) (hroot : ∀ name ∈ root, IsName name) :
    (∀ repoId filePath destination, safeDestination root repoId filePath = .ok destination →
      StrictlyInside root destination.absolute) ∧
    (∀ repoId filePath repoId' filePath' destination destination',
      safeDestination root repoId filePath = .ok destination →
      safeDestination root repoId' filePath' = .ok destination' →
      destination.absolute = destination'.absolute →
      repoId = repoId' ∧ normalized filePath = normalized filePath') ∧
    ∀ repoId filePath checkedId checkedPath, root ≠ [] → validateRepoId repoId = .ok checkedId →
      validateFilePath filePath = .ok checkedPath →
      ∃ destination, safeDestination root repoId filePath = .ok destination := by
  refine ⟨?_, ?_, ?_⟩
  · intro repoId filePath destination h
    obtain ⟨haccepted, habsolute⟩ := safeDestination_spec h
    exact ⟨below repoId filePath, by simp [below], below_isName haccepted, habsolute⟩
  · intro repoId filePath repoId' filePath' destination destination' h h' hsame
    obtain ⟨haccepted, habsolute⟩ := safeDestination_spec h
    obtain ⟨haccepted', habsolute'⟩ := safeDestination_spec h'
    have hnames : ∀ {path : List String}, (∀ name ∈ path, IsName name) →
        ∀ name ∈ root ++ path, IsName name := by
      intro path hpath name hname
      cases List.mem_append.mp hname with
      | inl hname => exact hroot name hname
      | inr hname => exact hpath name hname
    rw [habsolute, habsolute'] at hsame
    have hpath := absolutePath_inj (hnames (below_isName haccepted)) (hnames (below_isName haccepted'))
      (by simp [below]) (by simp [below]) hsame
    exact below_inj haccepted haccepted' (List.append_cancel_left hpath)
  · intro repoId filePath checkedId checkedPath hne hid hpath
    exact ⟨_, safeDestination_ok hne hid hpath⟩

/-- Both slashes name one file, below a root of two names. -/
theorem destinations_apart_models :
    ∃ destination, safeDestination ["srv", "models"] "org/repo" "q4\\model.GGUF" = .ok destination ∧
      StrictlyInside ["srv", "models"] destination.absolute :=
  have h := destinations_apart ["srv", "models"] (by decide)
  have ⟨destination, hdestination⟩ := h.2.2 "org/repo" "q4\\model.GGUF" "org/repo" "q4/model.GGUF"
    (by decide) (by decide) (by decide)
  ⟨destination, hdestination, h.1 _ _ _ hdestination⟩

end ModelForge.DownloadPaths
