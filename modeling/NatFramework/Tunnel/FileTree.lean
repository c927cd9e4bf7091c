import Mathlib.Data.List.Induction
import Mathlib.Data.List.TakeWhile
import Mathlib.Logic.Function.Basic

/-!
# A file tree

Paths as the system splits them, a tree of directories and files in which whatever is
there has its directory above it, and what `mkdir`, `stat` and `open` do to it.

* `createDirTree_spec`: `createDirTree` makes exactly the directories that are missing,
  and fails exactly where a file is in the way.
-/
namespace NatFramework.Tunnel

/-- `/` -/
def slash : UInt8 := 0x2f

/-- The names in a path; slashes that follow each other are one. -/
def components (p : List UInt8) : List (List UInt8) := (p.splitOn slash).filter (· ≠ [])

theorem components_nil : components [] = [] := by simp [components]

@[simp] theorem components_append_slash (a b : List UInt8) :
    components (a ++ slash :: b) = components a ++ components b := by
  rw [components, List.splitOn_append_cons_self, List.filter_append]
  rfl

@[simp] theorem components_slash (b : List UInt8) : components (slash :: b) = components b := by
  rw [← List.nil_append (slash :: b), components_append_slash, components_nil, List.nil_append]

theorem components_name {w : List UInt8} (hne : w ≠ []) (hw : slash ∉ w) : components w = [w] := by
  rw [components, List.splitOn_eq_singleton hw, List.filter_cons_of_pos (by simpa using hne)]
  rfl

theorem components_dropWhile (p : List UInt8) : components (p.dropWhile (· = slash)) = components p := by
  induction p with
  | nil => rfl
  | cons b p ih =>
    by_cases hb : b = slash
    · subst hb
      rw [List.dropWhile_cons_of_pos (by simp), ih, components_slash]
    · rw [List.dropWhile_cons_of_neg (by simpa using hb)]

theorem components_takeWhile_append (p b : List UInt8) :
    components (p.takeWhile (· = slash) ++ b) = components b := by
  induction p with
  | nil => rfl
  | cons x p ih =>
    by_cases hx : x = slash
    · subst hx
      rw [List.takeWhile_cons_of_pos (by simp), List.cons_append, components_slash, ih]
    · rw [List.takeWhile_cons_of_neg (by simpa using hx), List.nil_append]

/-- A path that begins with a name. -/
theorem components_takeWhile_cons {p : List UInt8} (hne : p ≠ []) (hhead : p.head? ≠ some slash) :
    (p.takeWhile (· ≠ slash) ≠ [] ∧ slash ∉ p.takeWhile (· ≠ slash)) ∧
      components p = p.takeWhile (· ≠ slash) :: components (p.dropWhile (· ≠ slash)) := by
  have hname : p.takeWhile (· ≠ slash) ≠ [] ∧ slash ∉ p.takeWhile (· ≠ slash) := by
    constructor
    · cases p with
      | nil => exact absurd rfl hne
      | cons b p =>
        have hb : b ≠ slash := fun h => hhead (congrArg some h)
        simp [hb]
    · intro hmem
      simpa using List.mem_takeWhile_imp hmem
  refine ⟨hname, ?_⟩
  have hsplit := List.takeWhile_append_dropWhile (p := (· ≠ slash)) (l := p)
  cases hrest : p.dropWhile (· ≠ slash) with
  | nil =>
    rw [hrest, List.append_nil] at hsplit
    rw [components_nil, ← components_name hname.1 hname.2, hsplit]
  | cons b q =>
    have hb : b = slash := by
      have hnot := List.head_dropWhile_not (p := (· ≠ slash)) (l := p) (by rw [hrest]; exact List.cons_ne_nil b q)
      simp only [hrest, List.head_cons] at hnot
      simpa using hnot
    subst hb
    rw [hrest] at hsplit
    have hjoin := congrArg components hsplit
    rw [components_append_slash, components_name hname.1 hname.2] at hjoin
    rw [← hjoin, components_slash]
    rfl

/-- `st` is what the node has been made with, where that is a client's stat. -/
inductive Node where
  | dir (st : Option (List UInt8))
  | file (st content : List UInt8)

def Node.isDir : Node → Bool
  | .dir _ => true
  | .file .. => false

/-- The paths of a transfer are all absolute, or all relative to one directory: `[]`. -/
structure FileTree where
  node : List (List UInt8) → Option Node
  root : (node []).any Node.isDir = true
  parent : ∀ c, c ≠ [] → (node c).isSome = true → (node c.dropLast).any Node.isDir = true

namespace FileTree

def isDir (t : FileTree) (c : List (List UInt8)) : Bool := (t.node c).any Node.isDir

/-- A directory gets a node under a name that no directory in it has. -/
def put (t : FileTree) (c : List (List UInt8)) (n : Node) (hne : c ≠ []) (hparent : t.isDir c.dropLast = true)
    (hdir : t.isDir c = false) : FileTree where
  node := Function.update t.node c (some n)
  root := by
    rw [Function.update_of_ne (Ne.symm hne)]
    exact t.root
  parent := by
    intro c' hne' hc'
    have hself : c.dropLast ≠ c := by
      intro h
      have hlen := congrArg List.length h
      rw [List.length_dropLast] at hlen
      have hpos := List.length_pos_iff.mpr hne
      omega
    rcases eq_or_ne c' c with rfl | hother
    · rw [Function.update_of_ne hself]
      exact hparent
    · rw [Function.update_of_ne hother] at hc'
      have habove := t.parent c' hne' hc'
      have hnot : c'.dropLast ≠ c := by
        rintro rfl
        rw [isDir] at hdir
        rw [hdir] at habove
        cases habove
      rw [Function.update_of_ne hnot]
      exact habove

/-- `mkdir`, which fails where something is. -/
def mkdir (t : FileTree) (c : List (List UInt8)) (st : Option (List UInt8)) : Option FileTree :=
  if h : c ≠ [] ∧ t.isDir c.dropLast = true ∧ t.isDir c = false ∧ (t.node c).isNone = true then
    some (t.put c (.dir st) h.1 h.2.1 h.2.2.1)
  else none

/-- `open` with `O_CREAT | O_TRUNC`, and what is written then. A file that is there keeps
its stat. -/
def openWrite (t : FileTree) (c : List (List UInt8)) (st content : List UInt8) : Option FileTree :=
  if h : c ≠ [] ∧ t.isDir c.dropLast = true ∧ t.isDir c = false then
    let st := match t.node c with
      | some (.file st _) => st
      | _ => st
    some (t.put c (.file st content) h.1 h.2.1 h.2.2)
  else none

/-- One turn of the loop of `createDirTree`.
mirrors utility/utils.cpp:271-287 -/
def ensure (t : FileTree) (c : List (List UInt8)) : Option FileTree :=
  match t.node c with
  | none => t.mkdir c none
  | some n => if n.isDir then some t else none

/-- `seen` is in front of `pos`.
mirrors utility/utils.cpp:268-289 -/
def treeLoop (t : FileTree) (seen rest : List UInt8) : Option FileTree :=
  if _h : rest = [] then some t
  else
    let dirPath := seen ++ rest.takeWhile (· ≠ slash)
    let behind := rest.dropWhile (· ≠ slash)
    match t.ensure (components dirPath) with
    | none => none
    | some t' =>
      treeLoop t' (dirPath ++ behind.takeWhile (· = slash)) (behind.dropWhile (· = slash))
termination_by rest.length
decreasing_by
  cases rest with
  | nil => exact absurd rfl _h
  | cons b rest =>
    have hle := ((List.dropWhile_suffix (p := (· = slash)) (l := rest.dropWhile (· ≠ slash))).trans
      (List.dropWhile_suffix _)).length_le
    by_cases hb : b = slash
    · subst hb
      have hdrop := (List.dropWhile_suffix (l := rest) (· = slash)).length_le
      simp only [List.dropWhile_cons]
      simpa using Nat.lt_succ_of_le hdrop
    · simp only [List.dropWhile_cons]
      simpa [hb] using Nat.lt_succ_of_le hle

/-- mirrors utility/utils.cpp:263-292 -/
def createDirTree (t : FileTree) (path : List UInt8) : Option FileTree :=
  t.treeLoop (path.takeWhile (· = slash)) (path.dropWhile (· = slash))

/-! ## The tree of directories, name by name -/

/-- The loop with its paths split. -/
def ensureAll (t : FileTree) (done : List (List UInt8)) : List (List UInt8) → Option FileTree
  | [] => some t
  | x :: xs =>
    match t.ensure (done ++ [x]) with
    | none => none
    | some t' => t'.ensureAll (done ++ [x]) xs

/-- What is in front of `pos` ends in a slash, and what is behind begins with none. -/
theorem treeLoop_eq (t : FileTree) (seen rest : List UInt8)
    (hseen : ∀ w, components (seen ++ w) = components seen ++ components w)
    (hrest : rest.head? ≠ some slash) :
    t.treeLoop seen rest = t.ensureAll (components seen) (components rest) := by
  fun_induction treeLoop t seen rest with
  | case1 t seen => rw [components_nil, ensureAll]
  | case2 t seen rest hne dirPath hnone =>
    obtain ⟨⟨hw, hws⟩, hsplit⟩ := components_takeWhile_cons hne hrest
    rw [hseen, components_name hw hws] at hnone
    rw [hsplit, ensureAll, hnone]
  | case3 t seen rest hne dirPath behind t' hsome ih =>
    obtain ⟨⟨hw, hws⟩, hsplit⟩ := components_takeWhile_cons hne hrest
    have hdir : components dirPath = components seen ++ [rest.takeWhile (· ≠ slash)] := by
      rw [hseen, components_name hw hws]
    rw [hdir] at hsome
    rw [hsplit, ensureAll, hsome]
    dsimp only
    change treeLoop t' (dirPath ++ behind.takeWhile (· = slash)) (behind.dropWhile (· = slash)) =
      t'.ensureAll _ (components behind)
    cases hbehind : behind with
    | nil => rw [List.dropWhile_nil, components_nil, treeLoop, dif_pos rfl, ensureAll]
    | cons b q =>
      have hb : b = slash := by
        have hnot := List.head?_dropWhile_not (· ≠ slash) rest
        rw [show rest.dropWhile (· ≠ slash) = b :: q from hbehind] at hnot
        simpa using hnot
      subst hb
      have hseen' : ∀ w, components (dirPath ++ (slash :: q).takeWhile (· = slash) ++ w) =
          components dirPath ++ components w := by
        intro w
        rw [List.takeWhile_cons_of_pos (by simp), List.append_assoc, List.cons_append, components_append_slash,
          components_takeWhile_append]
      have hdone : components (dirPath ++ (slash :: q).takeWhile (· = slash)) = components dirPath := by
        have hnil := hseen' []
        rwa [List.append_nil, components_nil, List.append_nil] at hnil
      have hnext := ih (by rw [hbehind, hdone]; exact hseen') ?_
      · rw [hbehind] at hnext
        rw [hnext, hdone, hdir, components_dropWhile]
      · intro hhead
        have hnot := List.head?_dropWhile_not (· = slash) behind
        rw [hhead] at hnot
        simp at hnot

variable {t t' : FileTree} {c q : List (List UInt8)}

/-- There is something only under directories. -/
theorem node_append (h : t.isDir c = false) {xs : List (List UInt8)} (hxs : xs ≠ []) :
    t.node (c ++ xs) = none := by
  induction xs using List.reverseRecOn with
  | nil => exact absurd rfl hxs
  | append_singleton xs x ih =>
    rw [← Option.not_isSome_iff_eq_none]
    intro hsome
    have habove := t.parent (c ++ (xs ++ [x])) (by simp) hsome
    rw [← List.append_assoc, List.dropLast_concat] at habove
    rcases eq_or_ne xs [] with rfl | hne
    · rw [List.append_nil] at habove
      rw [isDir, habove] at h
      cases h
    · rw [ih hne] at habove
      cases habove

theorem isDir_of_isPrefix (h : t.isDir c = true) (hq : q <+: c) : t.isDir q = true := by
  obtain ⟨xs, rfl⟩ := hq
  cases hdir : t.isDir q with
  | true => rfl
  | false =>
    rcases eq_or_ne xs [] with rfl | hne
    · rw [List.append_nil] at h
      rw [h] at hdir
      cases hdir
    · rw [isDir, node_append hdir hne] at h
      cases h

/-- A file stands in the way. -/
def isFile (t : FileTree) (c : List (List UInt8)) : Bool := (t.node c).any fun n => !n.isDir

theorem isFile_of_isDir (h : t.isDir c = true) : t.isFile c = false ∧ (t.node c).isNone = false := by
  unfold isDir at h
  unfold isFile
  cases hn : t.node c with
  | none =>
    rw [hn] at h
    cases h
  | some n =>
    rw [hn] at h
    change n.isDir = true at h
    simp [h]

/-- One turn: a directory is made where nothing is. -/
theorem ensure_cases {x : List UInt8} (hdir : t.isDir c = true) :
    (t.isFile (c ++ [x]) = true ∧ t.ensure (c ++ [x]) = none) ∨
    (t.isDir (c ++ [x]) = true ∧ t.ensure (c ++ [x]) = some t) ∨
    (t.node (c ++ [x]) = none ∧ ∃ t', t.ensure (c ++ [x]) = some t' ∧
      t'.node = Function.update t.node (c ++ [x]) (some (.dir none))) := by
  unfold ensure isFile
  cases hn : t.node (c ++ [x]) with
  | none =>
    have hfree : c ++ [x] ≠ [] ∧ t.isDir (c ++ [x]).dropLast = true ∧ t.isDir (c ++ [x]) = false ∧
        (t.node (c ++ [x])).isNone = true := by
      rw [List.dropLast_concat]
      exact ⟨by simp, hdir, by rw [isDir, hn]; rfl, by rw [hn]; rfl⟩
    exact Or.inr (Or.inr ⟨rfl, _, dif_pos hfree, rfl⟩)
  | some n =>
    cases n with
    | dir st => exact Or.inr (Or.inl ⟨by rw [isDir, hn]; rfl, rfl⟩)
    | file st content => exact Or.inl ⟨rfl, rfl⟩

theorem ensureAll_spec {done xs : List (List UInt8)} (hdone : t.isDir done = true) :
    (t.ensureAll done xs = none ↔ ∃ q, q <+: done ++ xs ∧ t.isFile q = true) ∧
      ∀ t', t.ensureAll done xs = some t' → ∀ q, t'.node q =
        if q <+: done ++ xs ∧ (t.node q).isNone = true then some (.dir none) else t.node q := by
  induction xs generalizing t done with
  | nil =>
    rw [List.append_nil, ensureAll]
    refine ⟨⟨fun h => absurd h (by simp), ?_⟩, ?_⟩
    · rintro ⟨q, hq, hfile⟩
      rw [(isFile_of_isDir (isDir_of_isPrefix hdone hq)).1] at hfile
      cases hfile
    · intro t' ht' q
      obtain rfl := Option.some.inj ht'
      split
      · rename_i hq
        rw [(isFile_of_isDir (isDir_of_isPrefix hdone hq.1)).2] at hq
        cases hq.2
      · rfl
  | cons x xs ih =>
    have hsplit : done ++ x :: xs = (done ++ [x]) ++ xs := by simp
    have hx : done ++ [x] <+: (done ++ [x]) ++ xs := List.prefix_append _ _
    rw [hsplit, ensureAll]
    rcases ensure_cases (x := x) hdone with ⟨hfile, hens⟩ | ⟨hdir, hens⟩ | ⟨hnone, t₁, hens, hnode⟩
    · rw [hens]
      exact ⟨⟨fun _ => ⟨_, hx, hfile⟩, fun _ => rfl⟩, fun t' ht' => by cases ht'⟩
    · rw [hens]
      exact ih hdir
    · rw [hens]
      have hdir : t₁.isDir (done ++ [x]) = true := by rw [isDir, hnode, Function.update_self]; rfl
      obtain ⟨hfails, hnodes⟩ := ih hdir
      refine ⟨hfails.trans ?_, fun t' ht' q => (hnodes t' ht' q).trans ?_⟩
      · -- the new directory is no file, and there was none
        have hsame : ∀ q, t₁.isFile q = t.isFile q := by
          intro q
          rw [isFile, isFile, hnode]
          rcases eq_or_ne q (done ++ [x]) with rfl | hne
          · rw [Function.update_self, hnone]
            rfl
          · rw [Function.update_of_ne hne]
        simp only [hsame]
      · rw [hnode]
        rcases eq_or_ne q (done ++ [x]) with rfl | hne
        · rw [Function.update_self, hnone, if_neg (by simp), if_pos ⟨hx, rfl⟩]
        · rw [Function.update_of_ne hne]

theorem createDirTree_eq (t : FileTree) (path : List UInt8) :
    t.createDirTree path = t.ensureAll [] (components path) := by
  have hseen : components (path.takeWhile (· = slash)) = [] := by
    have hnil := components_takeWhile_append path []
    rwa [List.append_nil, components_nil] at hnil
  have hrest : (path.dropWhile (· = slash)).head? ≠ some slash := by
    intro hhead
    have hnot := List.head?_dropWhile_not (· = slash) path
    rw [hhead] at hnot
    simp at hnot
  rw [createDirTree, treeLoop_eq t _ _ (fun w => by rw [components_takeWhile_append, hseen]; rfl) hrest, hseen,
    components_dropWhile]

/-- **`createDirTree`** fails if and only if some part of the path is a file; else it makes
the parts that are missing, and leaves everything else as it is. -/
theorem createDirTree_spec (t : FileTree) (path : List UInt8) :
    (t.createDirTree path = none ↔ ∃ q, q <+: components path ∧ t.isFile q = true) ∧
      ∀ t', t.createDirTree path = some t' → ∀ q, t'.node q =
        if q <+: components path ∧ (t.node q).isNone = true then some (.dir none) else t.node q := by
  rw [createDirTree_eq]
  exact ensureAll_spec t.root

end FileTree

end NatFramework.Tunnel
