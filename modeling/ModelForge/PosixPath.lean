import Mathlib

set_option autoImplicit false

/-!
# Paths on a POSIX file system

An absolute path is the list of its names from the top. `resolve`, `join` and
`relative` are those of Node's `path`, for an absolute directory.
-/
namespace ModelForge.PosixPath

/-- What a directory entry can be called. -/
structure IsName (name : String) : Prop where
  nonempty : name ≠ ""
  notSelf : name ≠ "."
  notParent : name ≠ ".."
  noSlash : '/' ∉ name.toList

instance (name : String) : Decidable (IsName name) :=
  decidable_of_iff (name ≠ "" ∧ name ≠ "." ∧ name ≠ ".." ∧ '/' ∉ name.toList)
    ⟨fun ⟨h₁, h₂, h₃, h₄⟩ => ⟨h₁, h₂, h₃, h₄⟩, fun ⟨h₁, h₂, h₃, h₄⟩ => ⟨h₁, h₂, h₃, h₄⟩⟩

def render (path : List String) : String := "/".intercalate path

def isAbsolute (path : String) : Bool := path.toList.head? = some '/'

/-- What stands between the slashes. -/
def segments (path : String) : List String := (path.toList.splitOn '/').map String.ofList

def enter (dir : List String) (segment : String) : List String :=
  if segment = "" ∨ segment = "." then dir
  else if segment = ".." then dir.dropLast
  else dir ++ [segment]

def join (dir : List String) (path : String) : List String := (segments path).foldl enter dir

def resolve (dir : List String) (path : String) : List String :=
  join (if isAbsolute path then [] else dir) path

/-- The names on the way from one directory to a path. -/
def way : List String → List String → List String
  | d :: dir, t :: target =>
    if d = t then way dir target else List.replicate (dir.length + 1) ".." ++ t :: target
  | dir, target => List.replicate dir.length ".." ++ target

def relative (dir target : List String) : String := render (way dir target)

theorem segments_render {path : List String} (hne : path ≠ []) (h : ∀ name ∈ path, IsName name) :
    segments (render path) = path := by
  have hslash : ∀ name ∈ path.map String.toList, '/' ∉ name := by
    intro name hname
    obtain ⟨s, hs, rfl⟩ := List.mem_map.mp hname
    exact (h s hs).noSlash
  have hmap : path.map String.toList ≠ [] := by simpa using hne
  have htext : (render path).toList = ['/'].intercalate (path.map String.toList) :=
    String.toList_intercalate
  rw [segments, htext, List.splitOn_intercalate '/' hslash hmap, List.map_map]
  simp

theorem render_injective {path other : List String} (hpath : ∀ name ∈ path, IsName name)
    (hother : ∀ name ∈ other, IsName name) (hne : path ≠ []) (hne' : other ≠ [])
    (h : render path = render other) : path = other := by
  rw [← segments_render hne hpath, h, segments_render hne' hother]

theorem enter_name {name : String} (h : IsName name) (dir : List String) :
    enter dir name = dir ++ [name] := by
  rw [enter, if_neg (not_or.mpr ⟨h.nonempty, h.notSelf⟩), if_neg h.notParent]

theorem foldl_enter {path : List String} (h : ∀ name ∈ path, IsName name) (dir : List String) :
    path.foldl enter dir = dir ++ path := by
  induction path generalizing dir with
  | nil => simp
  | cons name path ih =>
    rw [List.foldl_cons, enter_name (h name List.mem_cons_self),
      ih fun name hname => h name (List.mem_cons_of_mem _ hname), List.append_assoc,
      List.singleton_append]

theorem join_render {path : List String} (hne : path ≠ []) (h : ∀ name ∈ path, IsName name)
    (dir : List String) : join dir (render path) = dir ++ path := by
  rw [join, segments_render hne h, foldl_enter h]

theorem join_name {name : String} (h : IsName name) (dir : List String) :
    join dir name = dir ++ [name] := by
  have hjoin : join dir (render [name]) = dir ++ [name] :=
    join_render (by simp) (by simpa using h) dir
  rwa [render, String.intercalate_singleton] at hjoin

theorem render_cons (name : String) (path : List String) :
    ∃ rest, (render (name :: path)).toList = name.toList ++ rest := by
  have htext : (render (name :: path)).toList = ['/'].intercalate ((name :: path).map String.toList) :=
    String.toList_intercalate
  cases path with
  | nil => exact ⟨[], by simpa using htext⟩
  | cons next path => exact ⟨_, by simpa using htext⟩

theorem isAbsolute_render {path : List String} (h : ∀ name ∈ path, IsName name) :
    isAbsolute (render path) = false := by
  cases path with
  | nil => rfl
  | cons name path =>
    have hname := h name List.mem_cons_self
    have hcs : name.toList ≠ [] := by simpa using hname.nonempty
    obtain ⟨c, cs, hcs⟩ := List.exists_cons_of_ne_nil hcs
    obtain ⟨rest, hrest⟩ := render_cons name path
    refine decide_eq_false fun hslash => hname.noSlash ?_
    rw [hrest, hcs, List.cons_append, List.head?_cons, Option.some.injEq] at hslash
    rw [hcs, hslash]
    exact List.mem_cons_self

theorem resolve_render {path : List String} (hne : path ≠ []) (h : ∀ name ∈ path, IsName name)
    (dir : List String) : resolve dir (render path) = dir ++ path := by
  rw [resolve, isAbsolute_render h, if_neg (by simp), join_render hne h]

theorem way_append (dir path : List String) : way dir (dir ++ path) = path := by
  induction dir with
  | nil => cases path <;> rfl
  | cons name dir ih => rw [List.cons_append, way, if_pos rfl, ih]

theorem relative_append (dir path : List String) : relative dir (dir ++ path) = render path := by
  rw [relative, way_append]

end ModelForge.PosixPath
