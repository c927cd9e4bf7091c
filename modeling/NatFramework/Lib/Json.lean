import Mathlib.Data.List.Nodup
import Mathlib.Data.Rat.Cast.Defs

/-!
# JSON values

The part of a JSON library that saving and loading records needs: reading and
writing a member of an object, reading a number as an integer or as an amount,
iterating over the members. Numbers are written and read without loss; what an
amount is, is a parameter.

An object keeps its members in the order of insertion. `null` is also the object
nothing has been written to, and what reading a missing member gives.

* `members_collect`: an object written in a loop over records of different names
  has one member per record.
-/
namespace NatFramework.Lib

/-- Cutting off a fraction. -/
class CutOff (α : Type) where
  cutOff : α → Int

instance : CutOff ℚ := ⟨fun x => x.num.tdiv x.den⟩

instance : CutOff Float := ⟨fun x => x.toInt64.toInt⟩

inductive Json (α : Type := ℚ) where
  | null
  | int (n : Int)
  | num (x : α)
  | obj (members : List (String × Json α))

namespace Json

variable {α : Type}

def members : Json α → List (String × Json α)
  | obj l => l
  | _ => []

/-- `j[key]`, read. -/
def get (j : Json α) (key : String) : Json α := (j.members.lookup key).getD null

def setMember (key : String) (v : Json α) : List (String × Json α) → List (String × Json α)
  | [] => [(key, v)]
  | (k, w) :: l => if k = key then (k, v) :: l else (k, w) :: setMember key v l

/-- `j[key] = v`. -/
def set (j : Json α) (key : String) (v : Json α) : Json α := obj (setMember key v j.members)

/-- A number read as an integer; a fraction is cut off. -/
def getInt [CutOff α] : Json α → Option Int
  | int n => some n
  | num x => some (CutOff.cutOff x)
  | _ => none

/-- A number read as an amount. -/
def getNum [IntCast α] : Json α → Option α
  | int n => some n
  | num x => some x
  | _ => none

theorem setMember_new {key : String} {l : List (String × Json α)} (v : Json α)
    (h : key ∉ l.map Prod.fst) : setMember key v l = l ++ [(key, v)] := by
  induction l with
  | nil => rfl
  | cons e l ih =>
    obtain ⟨k, w⟩ := e
    simp only [List.map_cons, List.mem_cons, not_or] at h
    rw [setMember, if_neg (Ne.symm h.1), ih h.2, List.cons_append]

/-- Writes those of the records `l` that `p` selects, each under its key. -/
def collect {ν : Type} (p : ν → Bool) (key : ν → String) (val : ν → Json α) (l : List ν) : Json α :=
  l.foldl (fun j x => if p x then j.set (key x) (val x) else j) null

/-- Records with different keys: no write replaces another. -/
theorem members_collect {ν : Type} (p : ν → Bool) (key : ν → String) (val : ν → Json α) (l : List ν)
    (h : (l.map key).Nodup) :
    (collect p key val l).members = (l.filter p).map fun x => (key x, val x) := by
  suffices hacc : ∀ j : Json α, (∀ x ∈ l, key x ∉ j.members.map Prod.fst) →
      (l.foldl (fun j x => if p x then j.set (key x) (val x) else j) j).members =
        j.members ++ (l.filter p).map fun x => (key x, val x) by
    exact hacc null fun x _ => by simp [members]
  induction l with
  | nil => intro j _; simp
  | cons x l ih =>
    intro j hj
    rw [List.map_cons, List.nodup_cons] at h
    rw [List.foldl_cons, List.filter_cons]
    by_cases hp : p x
    · have hset : (j.set (key x) (val x)).members = j.members ++ [(key x, val x)] :=
        setMember_new _ (hj x List.mem_cons_self)
      rw [if_pos hp, if_pos hp, ih h.2, hset, List.append_assoc]
      · rfl
      · intro y hy
        rw [hset, List.map_append, List.mem_append, not_or]
        refine ⟨hj y (List.mem_cons_of_mem x hy), ?_⟩
        rw [List.map_singleton, List.mem_singleton]
        intro he
        have hxy : key y = key x := he
        exact h.1 (hxy ▸ List.mem_map_of_mem hy)
    · rw [if_neg hp, if_neg hp]
      exact ih h.2 j fun y hy => hj y (List.mem_cons_of_mem x hy)

end Json

end NatFramework.Lib
