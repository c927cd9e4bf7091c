import Mathlib.Data.List.Sort
import Mathlib.Data.String.Basic
import NatFramework.Lib.Run

/-!
# Market-data subscriptions of a client

`IMDHelper` keeps the instruments it has subscribed to under the hash of their
names, and asks the engine only for what is not there. The map is changed before
the engine is asked, and stays changed when the engine does not answer.

* `subscribeLoop_spec`, `unsubscribeLoop_spec`: the requests and the map after the
  loops.
* `Tracked.next_consistent_iff`: one call keeps the map and the engine together
  exactly when it is answered, or changes nothing, and no two names collide.
* `consistent_iff`: the same of a run of calls.
-/
namespace NatFramework.Md

open Lib

/-! ## The instruments of a request -/

/-- What the requests use of `tInstrumentInfo`.
mirrors include/ATStructure.h:246-258 -/
structure InstrInfo where
  instr : String
  product : String
  deriving DecidableEq, Repr

/-- `std::set<string>::insert` -/
def setInsert (s : String) (res : List String) : List String :=
  if s ∈ res then res else res.orderedInsert (· ≤ ·) s

/-- A string of a request asks for the instrument: by its name, by its product, or
for all. -/
def Asks (i : String) (info : InstrInfo) : Prop :=
  i = info.instr ∨ i = info.product ∨ i = "all" ∨ i = "All"

instance (i : String) (info : InstrInfo) : Decidable (Asks i info) :=
  inferInstanceAs (Decidable (_ ∨ _ ∨ _ ∨ _))

/-- mirrors common/CTradeBaseInfo.cpp:84-98 -/
def productToInstrSet (instrInfo : List InstrInfo) (product : List String) : List String :=
  product.foldl (fun res i =>
    instrInfo.foldl (fun res info => if Asks i info then setInsert info.instr res else res) res) []

theorem mem_setInsert {s t : String} {res : List String} :
    t ∈ setInsert s res ↔ t = s ∨ t ∈ res := by
  unfold setInsert
  split
  · exact ⟨.inr, fun h => h.elim (fun h => h ▸ ‹_›) id⟩
  · exact List.mem_orderedInsert _

theorem nodup_setInsert {s : String} {res : List String} (h : res.Nodup) :
    (setInsert s res).Nodup := by
  unfold setInsert
  split
  · exact h
  · exact (List.perm_orderedInsert _ s res).nodup_iff.mpr (List.nodup_cons.mpr ⟨‹_›, h⟩)

/-- The instruments one string adds. -/
theorem foldl_setInsert (i : String) (instrInfo : List InstrInfo) {res : List String}
    (h : res.Nodup) :
    let res' := instrInfo.foldl
      (fun res info => if Asks i info then setInsert info.instr res else res) res
    res'.Nodup ∧ ∀ t, t ∈ res' ↔ t ∈ res ∨ ∃ info ∈ instrInfo, Asks i info ∧ info.instr = t := by
  induction instrInfo generalizing res with
  | nil => exact ⟨h, by simp⟩
  | cons info infos ih =>
    simp only [List.foldl_cons]
    by_cases hasks : Asks i info
    · obtain ⟨hnodup, hmem⟩ := ih (nodup_setInsert (s := info.instr) h)
      rw [if_pos hasks]
      refine ⟨hnodup, fun t => ?_⟩
      rw [hmem, mem_setInsert]
      simp only [List.mem_cons, exists_eq_or_imp, hasks, true_and]
      rw [eq_comm, or_comm (a := info.instr = t), or_assoc]
    · obtain ⟨hnodup, hmem⟩ := ih h
      rw [if_neg hasks]
      refine ⟨hnodup, fun t => ?_⟩
      rw [hmem]
      simp only [List.mem_cons, exists_eq_or_imp, hasks, false_and, false_or]

theorem foldl_product (instrInfo : List InstrInfo) (product : List String) {res : List String}
    (h : res.Nodup) :
    let res' := product.foldl (fun res i => instrInfo.foldl
      (fun res info => if Asks i info then setInsert info.instr res else res) res) res
    res'.Nodup ∧ ∀ t, t ∈ res' ↔
      t ∈ res ∨ ∃ i ∈ product, ∃ info ∈ instrInfo, Asks i info ∧ info.instr = t := by
  induction product generalizing res with
  | nil => exact ⟨h, by simp⟩
  | cons i is ih =>
    obtain ⟨hone, hmem⟩ := foldl_setInsert i instrInfo h
    obtain ⟨hnodup, hall⟩ := ih hone
    refine ⟨hnodup, fun t => (hall t).trans ?_⟩
    rw [hmem, or_assoc]
    simp only [List.mem_cons, exists_eq_or_imp]

theorem nodup_productToInstrSet (instrInfo : List InstrInfo) (product : List String) :
    (productToInstrSet instrInfo product).Nodup :=
  (foldl_product instrInfo product .nil).1

theorem mem_productToInstrSet {instrInfo : List InstrInfo} {product : List String} {t : String} :
    t ∈ productToInstrSet instrInfo product ↔
      ∃ i ∈ product, ∃ info ∈ instrInfo, Asks i info ∧ info.instr = t :=
  ((foldl_product instrInfo product .nil).2 t).trans (by simp)

/-! ## The map -/

variable {hash : String → UInt32}

/-- `subs_instr_hash_map_`: the names, each under its hash.
mirrors md/IMDHelper.h:76-78 -/
structure SubsMap (hash : String → UInt32) where
  names : List String
  distinct : names.Pairwise fun i j => hash i ≠ hash j

namespace SubsMap

/-- The map after `clear()`. -/
def empty : SubsMap hash := ⟨[], .nil⟩

@[simp] theorem names_empty : (empty : SubsMap hash).names = [] := rfl

/-- `find(h) != end()` -/
def has (m : SubsMap hash) (h : UInt32) : Bool := m.names.any fun j => hash j = h

variable {m : SubsMap hash} {i j : String}

theorem has_iff {h : UInt32} : m.has h = true ↔ ∃ j ∈ m.names, hash j = h := by
  simp [has]

theorem has_of_mem (h : i ∈ m.names) : m.has (hash i) = true := has_iff.mpr ⟨i, h, rfl⟩

theorem eq_of_hash (hi : i ∈ m.names) (hj : j ∈ m.names) (h : hash i = hash j) : i = j :=
  List.inj_on_of_nodup_map (List.pairwise_map.mpr m.distinct) hi hj h

/-- `map[hash] = i` for a name whose hash is not there. -/
def insert (m : SubsMap hash) (i : String) (h : ¬ m.has (hash i)) : SubsMap hash where
  names := m.names ++ [i]
  distinct := by
    rw [List.pairwise_append]
    refine ⟨m.distinct, List.pairwise_singleton _ _, fun j hj k hk heq => ?_⟩
    rw [List.mem_singleton.mp hk] at heq
    exact h (has_iff.mpr ⟨j, hj, heq⟩)

/-- `erase(h)` -/
def erase (m : SubsMap hash) (h : UInt32) : SubsMap hash where
  names := m.names.filter fun j => hash j ≠ h
  distinct := m.distinct.filter _

end SubsMap

/-! ## The loops of the requests -/

/-- The loop of `subscribe`: `real_subs` and the map.
mirrors md/IMDHelper.cpp:17-26 -/
def subscribeLoop : List String → List String × SubsMap hash → List String × SubsMap hash
  | [], r => r
  | i :: is, r =>
    if h : r.2.has (hash i) then subscribeLoop is r
    else subscribeLoop is (r.1 ++ [i], r.2.insert i h)

/-- The loop of `unsubscribe`: `real_unsubs` and the map.
mirrors md/IMDHelper.cpp:34-43 -/
def unsubscribeLoop : List String → List String × SubsMap hash → List String × SubsMap hash
  | [], r => r
  | i :: is, r =>
    if r.2.has (hash i) then unsubscribeLoop is (r.1 ++ [i], r.2.erase (hash i))
    else unsubscribeLoop is r

/-- The loop of `forceUnsubscribe`.
mirrors md/IMDHelper.cpp:51-55 -/
def forceLoop : List String → List String × SubsMap hash → List String × SubsMap hash
  | [], r => r
  | i :: is, r => forceLoop is (r.1 ++ [i], r.2.erase (hash i))

/-- What the loop of `subscribe` adds to the request and to the map. -/
structure Added (S : List String) (m m' : SubsMap hash) (new : List String) : Prop where
  names : m'.names = m.names ++ new
  sublist : new.Sublist S
  absent : ∀ i ∈ new, m.has (hash i) = false
  covered : ∀ i ∈ S, m'.has (hash i) = true

theorem subscribeLoop_spec (S : List String) (r : List String × SubsMap hash) :
    ∃ new, (subscribeLoop S r).1 = r.1 ++ new ∧ Added S r.2 (subscribeLoop S r).2 new := by
  induction S generalizing r with
  | nil => exact ⟨[], by simp [subscribeLoop], by simp [subscribeLoop], .slnil, by simp, by simp⟩
  | cons i is ih =>
    rw [subscribeLoop]
    by_cases h : r.2.has (hash i)
    · rw [dif_pos h]
      obtain ⟨new, hreal, hadded⟩ := ih r
      refine ⟨new, hreal, hadded.names, hadded.sublist.cons _, hadded.absent, fun j hj => ?_⟩
      rcases List.mem_cons.mp hj with rfl | hj
      · obtain ⟨k, hk, heq⟩ := SubsMap.has_iff.mp h
        exact SubsMap.has_iff.mpr ⟨k, by rw [hadded.names]; exact List.mem_append_left _ hk, heq⟩
      · exact hadded.covered j hj
    · rw [dif_neg h]
      obtain ⟨new, hreal, hadded⟩ := ih (r.1 ++ [i], r.2.insert i h)
      have hnames : (subscribeLoop is (r.1 ++ [i], r.2.insert i h)).2.names =
          r.2.names ++ i :: new := hadded.names.trans (by simp [SubsMap.insert])
      refine ⟨i :: new, by rw [hreal]; simp, hnames, hadded.sublist.cons_cons _, fun j hj => ?_,
        fun j hj => ?_⟩
      · rcases List.mem_cons.mp hj with rfl | hj
        · simpa using h
        · have habsent := hadded.absent j hj
          rw [Bool.eq_false_iff, ne_eq, SubsMap.has_iff] at habsent ⊢
          exact fun ⟨k, hk, heq⟩ => habsent ⟨k, List.mem_append_left _ hk, heq⟩
      · rcases List.mem_cons.mp hj with rfl | hj
        · exact SubsMap.has_of_mem (by rw [hnames]; simp)
        · exact hadded.covered j hj

/-- What the loop of `unsubscribe` takes out. -/
structure Removed (S : List String) (m m' : SubsMap hash) (gone : List String) : Prop where
  names : ∀ j, j ∈ m'.names ↔ j ∈ m.names ∧ ∀ i ∈ S, hash i ≠ hash j
  sublist : gone.Sublist S
  present : ∀ i ∈ gone, m.has (hash i) = true
  covered : ∀ i ∈ S, m.has (hash i) = true → ∃ j ∈ gone, hash j = hash i

theorem mem_erase {m : SubsMap hash} {h : UInt32} {j : String} :
    j ∈ (m.erase h).names ↔ j ∈ m.names ∧ hash j ≠ h := by
  simp [SubsMap.erase]

theorem has_erase {m : SubsMap hash} {h k : UInt32} :
    (m.erase h).has k = true ↔ m.has k = true ∧ k ≠ h := by
  rw [SubsMap.has_iff, SubsMap.has_iff]
  constructor
  · rintro ⟨j, hj, rfl⟩
    obtain ⟨hj, hne⟩ := mem_erase.mp hj
    exact ⟨⟨j, hj, rfl⟩, hne⟩
  · rintro ⟨⟨j, hj, rfl⟩, hne⟩
    exact ⟨j, mem_erase.mpr ⟨hj, hne⟩, rfl⟩

theorem unsubscribeLoop_spec (S : List String) (r : List String × SubsMap hash) :
    ∃ gone, (unsubscribeLoop S r).1 = r.1 ++ gone ∧
      Removed S r.2 (unsubscribeLoop S r).2 gone := by
  induction S generalizing r with
  | nil =>
    exact ⟨[], by simp [unsubscribeLoop], by simp [unsubscribeLoop], .slnil, by simp, by simp⟩
  | cons i is ih =>
    rw [unsubscribeLoop]
    by_cases h : r.2.has (hash i) = true
    · rw [if_pos h]
      obtain ⟨gone, hreal, hrem⟩ := ih (r.1 ++ [i], r.2.erase (hash i))
      refine ⟨i :: gone, by rw [hreal]; simp, fun j => ?_, hrem.sublist.cons_cons _, fun j hj => ?_,
        fun j hj hhas => ?_⟩
      · rw [hrem.names, mem_erase, List.forall_mem_cons, and_assoc, ne_comm]
      · rcases List.mem_cons.mp hj with rfl | hj
        · exact h
        · exact (has_erase.mp (hrem.present j hj)).1
      · by_cases heq : hash i = hash j
        · exact ⟨i, List.mem_cons_self .., heq⟩
        · rcases List.mem_cons.mp hj with rfl | hj
          · exact absurd rfl heq
          · obtain ⟨k, hk, hkj⟩ := hrem.covered j hj (has_erase.mpr ⟨hhas, Ne.symm heq⟩)
            exact ⟨k, List.mem_cons_of_mem _ hk, hkj⟩
    · rw [if_neg h]
      obtain ⟨gone, hreal, hrem⟩ := ih r
      refine ⟨gone, hreal, fun j => ?_, hrem.sublist.cons _, hrem.present, fun j hj hhas => ?_⟩
      · rw [hrem.names, List.forall_mem_cons]
        exact and_congr_right fun hj => ⟨fun hall => ⟨fun heq => h (SubsMap.has_iff.mpr
          ⟨j, hj, heq.symm⟩), hall⟩, And.right⟩
      · rcases List.mem_cons.mp hj with rfl | hj
        · exact absurd hhas h
        · exact hrem.covered j hj hhas

theorem forceLoop_spec (S : List String) (r : List String × SubsMap hash) :
    (forceLoop S r).1 = r.1 ++ S ∧ ∀ j, j ∈ (forceLoop S r).2.names ↔
      j ∈ r.2.names ∧ ∀ i ∈ S, hash i ≠ hash j := by
  induction S generalizing r with
  | nil => simp [forceLoop]
  | cons i is ih =>
    obtain ⟨hreal, hnames⟩ := ih (r.1 ++ [i], r.2.erase (hash i))
    refine ⟨by rw [forceLoop, hreal]; simp, fun j => ?_⟩
    rw [forceLoop, hnames, mem_erase, List.forall_mem_cons, and_assoc, ne_comm]

/-! ## Calls -/

/-- A call, with the base information of its moment. -/
inductive Call where
  | subscribe (instrInfo : List InstrInfo) (instr : List String)
  | unsubscribe (instrInfo : List InstrInfo) (instr : List String)
  | forceUnsubscribe (instrInfo : List InstrInfo) (instr : List String)
  | clear
  deriving DecidableEq, Repr

namespace Call

/-- What the call asks the engine for, and the map it leaves.
mirrors md/IMDHelper.cpp:13-74 -/
def run (m : SubsMap hash) : Call → List String × SubsMap hash
  | subscribe instrInfo instr => subscribeLoop (productToInstrSet instrInfo instr) ([], m)
  | unsubscribe instrInfo instr => unsubscribeLoop (productToInstrSet instrInfo instr) ([], m)
  | forceUnsubscribe instrInfo instr => forceLoop (productToInstrSet instrInfo instr) ([], m)
  | clear => (m.names, SubsMap.empty)

/-- The instruments the call is about. -/
def covers (m : SubsMap hash) : Call → List String
  | subscribe instrInfo instr | unsubscribe instrInfo instr | forceUnsubscribe instrInfo instr =>
    productToInstrSet instrInfo instr
  | clear => m.names

def isSubscribe : Call → Bool
  | subscribe .. => true
  | _ => false

end Call

/-- `doSubscribe` and `doUnsubscribe`; `reply`: whether the engine answers in time.
mirrors md/CMDHelperComm.cpp:104-130 -/
def doSubscribe (reply : Bool) (instr : List String) : Bool := instr = [] || reply

/-! ## The map and the engine's answers -/

/-- A helper, and of every instrument whether the last successful request that
covered it was a subscribe. -/
structure Tracked (hash : String → UInt32) where
  map : SubsMap hash
  last : String → Bool

namespace Tracked

def start (m : SubsMap hash) : Tracked hash := ⟨m, fun i => decide (i ∈ m.names)⟩

/-- A call, and whether the engine answers it in time. -/
def next (s : Tracked hash) (e : Call × Bool) : Tracked hash :=
  let r := e.1.run s.map
  { map := r.2
    last := if doSubscribe e.2 r.1 then
        fun i => if i ∈ e.1.covers s.map then e.1.isSubscribe else s.last i
      else s.last }

def sys (hash : String → UInt32) : Sys (Tracked hash) (Call × Bool) where
  start s := ∃ m, s = start m
  ok _ _ := True
  next := next

/-- The map holds the instruments whose last successful request was a subscribe. -/
def Consistent (s : Tracked hash) : Prop := ∀ i, i ∈ s.map.names ↔ s.last i = true

/-- No instrument of the call has the hash of another one of it or of the map. -/
def Apart (S : List String) (m : SubsMap hash) : Prop :=
  ∀ i ∈ S, ∀ j, (j ∈ m.names ∨ j ∈ S) → hash j = hash i → j = i

/-- No instrument of the map has the hash of one of the call and is not one of it. -/
def Spares (S : List String) (m : SubsMap hash) : Prop :=
  ∀ i ∈ S, ∀ j ∈ m.names, hash j = hash i → j ∈ S

/-- The call is answered, or changes nothing, and touches no other instrument by
its hash. -/
def Fine (s : Tracked hash) (e : Call × Bool) : Prop :=
  match e.1 with
  | .subscribe instrInfo instr =>
    let S := productToInstrSet instrInfo instr
    (e.2 = true ∨ ∀ i ∈ S, s.map.has (hash i) = true) ∧ Apart S s.map
  | .unsubscribe instrInfo instr | .forceUnsubscribe instrInfo instr =>
    let S := productToInstrSet instrInfo instr
    (e.2 = true ∨ ∀ i ∈ S, s.map.has (hash i) = false) ∧ Spares S s.map
  | .clear => e.2 = true ∨ s.map.names = []

variable {s : Tracked hash} {S : List String} {reply : Bool}

/-- After a subscribe loop the map holds all of `S` exactly when nothing collides. -/
theorem apart_iff {m m' : SubsMap hash} {new : List String} (h : Added S m m' new) :
    (∀ i ∈ S, i ∈ m'.names) ↔ Apart S m := by
  constructor
  · intro hall i hi j hj heq
    have hj' : j ∈ m'.names := by
      rcases hj with hj | hj
      · rw [h.names]
        exact List.mem_append_left _ hj
      · exact hall j hj
    exact SubsMap.eq_of_hash hj' (hall i hi) heq
  · intro hapart i hi
    obtain ⟨j, hj, heq⟩ := SubsMap.has_iff.mp (h.covered i hi)
    have hj' : j ∈ m.names ∨ j ∈ S := by
      rw [h.names] at hj
      exact (List.mem_append.mp hj).imp id fun hj => h.sublist.subset hj
    exact hapart i hi j hj' heq ▸ hj

/-- The request of a subscribe is empty exactly when all of `S` is there by its hash. -/
theorem new_eq_nil_iff {m m' : SubsMap hash} {new : List String} (h : Added S m m' new) :
    new = [] ↔ ∀ i ∈ S, m.has (hash i) = true := by
  constructor
  · rintro rfl i hi
    have hnames : m'.names = m.names := by rw [h.names, List.append_nil]
    obtain ⟨j, hj, heq⟩ := SubsMap.has_iff.mp (h.covered i hi)
    exact SubsMap.has_iff.mpr ⟨j, hnames ▸ hj, heq⟩
  · intro hall
    refine List.eq_nil_iff_forall_not_mem.mpr fun i hi => ?_
    have hhas := hall i (h.sublist.subset hi)
    rw [h.absent i hi] at hhas
    cases hhas

theorem gone_eq_nil_iff {m m' : SubsMap hash} {gone : List String} (h : Removed S m m' gone) :
    gone = [] ↔ ∀ i ∈ S, m.has (hash i) = false := by
  constructor
  · rintro rfl i hi
    refine Bool.eq_false_iff.mpr fun hhas => ?_
    obtain ⟨j, hj, -⟩ := h.covered i hi hhas
    cases hj
  · intro hall
    refine List.eq_nil_iff_forall_not_mem.mpr fun i hi => ?_
    have hhas := hall i (h.sublist.subset hi)
    rw [h.present i hi] at hhas
    cases hhas

theorem doSubscribe_iff {instr : List String} :
    doSubscribe reply instr = true ↔ instr = [] ∨ reply = true := by
  simp [doSubscribe]

/-- An answered subscribe. -/
theorem consistent_added {m' : SubsMap hash} {new : List String} (h : Consistent s)
    (hadded : Added S s.map m' new) :
    Consistent ⟨m', fun i => if i ∈ S then true else s.last i⟩ ↔ Apart S s.map := by
  rw [← apart_iff hadded]
  constructor
  · intro hnext i hi
    exact (hnext i).mpr (if_pos hi)
  · intro hall i
    by_cases hi : i ∈ S
    · simp only [if_pos hi, hall i hi]
    · have hnew : i ∉ new := fun hi' => hi (hadded.sublist.subset hi')
      simp only [if_neg hi, hadded.names, List.mem_append, hnew, or_false]
      exact h i

/-- A subscribe without an answer has put something into the map that it did not hold. -/
theorem not_consistent_added {m' : SubsMap hash} {new : List String} (h : Consistent s)
    (hadded : Added S s.map m' new) (hne : new ≠ []) : ¬ Consistent ⟨m', s.last⟩ := by
  intro hnext
  obtain ⟨i, hi⟩ := List.exists_mem_of_ne_nil new hne
  have hin : i ∈ m'.names := by
    rw [hadded.names]
    exact List.mem_append_right _ hi
  have hwas : i ∈ s.map.names := (h i).mpr ((hnext i).mp hin)
  have habsent := hadded.absent i hi
  rw [SubsMap.has_of_mem hwas] at habsent
  cases habsent

/-- The requests that take instruments out: `q` is what they ask for. -/
theorem consistent_removed {m' : SubsMap hash} {q : List String} (h : Consistent s)
    (hnames : ∀ j, j ∈ m'.names ↔ j ∈ s.map.names ∧ ∀ i ∈ S, hash i ≠ hash j)
    (hq : q = [] → ∀ i ∈ S, s.map.has (hash i) = false) :
    Consistent ⟨m', if doSubscribe reply q then fun i => if i ∈ S then false else s.last i
        else s.last⟩ ↔
      (reply = true ∨ ∀ i ∈ S, s.map.has (hash i) = false) ∧ Spares S s.map := by
  have hnone : (∀ i ∈ S, s.map.has (hash i) = false) ↔
      ∀ i ∈ S, ∀ j ∈ s.map.names, hash i ≠ hash j := by
    refine forall₂_congr fun i _ => ?_
    rw [Bool.eq_false_iff, ne_eq, SubsMap.has_iff]
    exact ⟨fun hno j hj heq => hno ⟨j, hj, heq.symm⟩, fun hall ⟨j, hj, heq⟩ => hall j hj heq.symm⟩
  by_cases hok : doSubscribe reply q = true
  · have hleft : reply = true ∨ ∀ i ∈ S, s.map.has (hash i) = false :=
      (doSubscribe_iff.mp hok).symm.imp id hq
    rw [if_pos hok]
    constructor
    · intro hnext
      refine ⟨hleft, fun i hi j hj heq => ?_⟩
      -- `j` is gone from the map, so it is one of those asked for
      by_contra hout
      have hlast : s.last j = true := (h j).mp hj
      have hin := (hnext j).mpr (by simpa only [if_neg hout] using hlast)
      exact ((hnames j).mp hin).2 i hi heq.symm
    · rintro ⟨-, hspares⟩ j
      by_cases hj : j ∈ S
      · simp only [if_pos hj, hnames, Bool.false_eq_true, iff_false, not_and]
        exact fun _ hall => hall j hj rfl
      · simp only [if_neg hj, hnames]
        rw [← h j]
        exact ⟨And.left, fun hin => ⟨hin, fun i hi heq => hj (hspares i hi j hin heq.symm)⟩⟩
  · have hreply : reply ≠ true := fun hr => hok (doSubscribe_iff.mpr (.inr hr))
    rw [if_neg hok]
    constructor
    · intro hnext
      have hall : ∀ i ∈ S, ∀ j ∈ s.map.names, hash i ≠ hash j := fun i hi j hj =>
        ((hnames j).mp ((hnext j).mpr ((h j).mp hj))).2 i hi
      exact ⟨.inr (hnone.mpr hall), fun i hi j hj heq => absurd heq.symm (hall i hi j hj)⟩
    · rintro ⟨hleft, -⟩ j
      have hall := hnone.mp (hleft.resolve_left hreply)
      simp only [hnames]
      rw [← h j]
      exact ⟨And.left, fun hin => ⟨hin, fun i hi => hall i hi j hin⟩⟩

theorem next_subscribe (s : Tracked hash) (instrInfo : List InstrInfo) (instr : List String) :
    let S := productToInstrSet instrInfo instr
    let r := subscribeLoop S ([], s.map)
    s.next (.subscribe instrInfo instr, reply) = ⟨r.2,
      if doSubscribe reply r.1 then fun i => if i ∈ S then true else s.last i else s.last⟩ := rfl

theorem next_unsubscribe (s : Tracked hash) (instrInfo : List InstrInfo) (instr : List String) :
    let S := productToInstrSet instrInfo instr
    let r := unsubscribeLoop S ([], s.map)
    s.next (.unsubscribe instrInfo instr, reply) = ⟨r.2,
      if doSubscribe reply r.1 then fun i => if i ∈ S then false else s.last i else s.last⟩ := rfl

theorem next_force (s : Tracked hash) (instrInfo : List InstrInfo) (instr : List String) :
    let S := productToInstrSet instrInfo instr
    let r := forceLoop S ([], s.map)
    s.next (.forceUnsubscribe instrInfo instr, reply) = ⟨r.2,
      if doSubscribe reply r.1 then fun i => if i ∈ S then false else s.last i else s.last⟩ := rfl

theorem next_clear (s : Tracked hash) : s.next (.clear, reply) = ⟨SubsMap.empty,
    if doSubscribe reply s.map.names then fun i => if i ∈ s.map.names then false else s.last i
      else s.last⟩ := rfl

/-- One call keeps the map and the engine together exactly when it is fine. -/
theorem next_consistent_iff (s : Tracked hash) (e : Call × Bool) (h : Consistent s) :
    Consistent (s.next e) ↔ Fine s e := by
  obtain ⟨call, reply⟩ := e
  cases call with
  | subscribe instrInfo instr =>
    obtain ⟨new, hreal, hadded⟩ :=
      subscribeLoop_spec (productToInstrSet instrInfo instr) ([], s.map)
    rw [next_subscribe, hreal, List.nil_append, Fine]
    dsimp only
    rw [← new_eq_nil_iff hadded]
    by_cases hok : doSubscribe reply new = true
    · rw [if_pos hok, consistent_added h hadded]
      exact ⟨fun hapart => ⟨(doSubscribe_iff.mp hok).symm, hapart⟩, And.right⟩
    · rw [if_neg hok]
      have hor : ¬ (reply = true ∨ new = []) := fun hor => hok (doSubscribe_iff.mpr hor.symm)
      refine iff_of_false (not_consistent_added h hadded fun hnil => hor (.inr hnil)) ?_
      exact fun hfine => hor hfine.1
  | unsubscribe instrInfo instr =>
    obtain ⟨gone, hreal, hremoved⟩ :=
      unsubscribeLoop_spec (productToInstrSet instrInfo instr) ([], s.map)
    rw [next_unsubscribe, hreal, List.nil_append]
    exact consistent_removed h hremoved.names (gone_eq_nil_iff hremoved).mp
  | forceUnsubscribe instrInfo instr =>
    obtain ⟨hreal, hnames⟩ := forceLoop_spec (productToInstrSet instrInfo instr) ([], s.map)
    rw [next_force, hreal, List.nil_append]
    refine consistent_removed h hnames fun hnil => ?_
    rw [hnil]
    simp
  | clear =>
    rw [next_clear, Fine]
    dsimp only
    by_cases hok : doSubscribe reply s.map.names = true
    · rw [if_pos hok]
      refine iff_of_true (fun i => ?_) (doSubscribe_iff.mp hok).symm
      by_cases hi : i ∈ s.map.names
      · simp [hi]
      · simpa [hi] using fun hlast => hi ((h i).mpr hlast)
    · rw [if_neg hok]
      refine iff_of_false (fun hnext => ?_) fun hfine => hok (doSubscribe_iff.mpr hfine.symm)
      obtain ⟨i, hi⟩ := List.exists_mem_of_ne_nil s.map.names
        fun hnil => hok (doSubscribe_iff.mpr (.inl hnil))
      cases (hnext i).mpr ((h i).mp hi)

/-! ## Runs -/

theorem consistent_start (m : SubsMap hash) : Consistent (start m) := fun i => by
  simp [start]

/-- What is not there is asked for again. -/
def Retries (s : Tracked hash) : Prop := ∀ instrInfo instr,
  let S := productToInstrSet instrInfo instr
  Apart S s.map → ∀ i, i ∈ (subscribeLoop S ([], s.map)).1 ↔ i ∈ S ∧ s.last i = false

theorem retries_of_consistent (h : Consistent s) : Retries s := by
  intro instrInfo instr S hapart i
  obtain ⟨new, hreal, hadded⟩ := subscribeLoop_spec S ([], s.map)
  rw [hreal, List.nil_append]
  have hlast : s.last i = false ↔ i ∉ s.map.names := by
    rw [h i, Bool.not_eq_true]
  rw [hlast]
  constructor
  · intro hi
    refine ⟨hadded.sublist.subset hi, fun hin => ?_⟩
    have habsent := hadded.absent i hi
    rw [SubsMap.has_of_mem hin] at habsent
    cases habsent
  · rintro ⟨hi, hout⟩
    have hin := (apart_iff hadded).mpr hapart i hi
    rw [hadded.names] at hin
    exact (List.mem_append.mp hin).resolve_left hout

/-- From any map, the map holds in every state of a run exactly the instruments
whose last successful request was a subscribe, and a subscribe asks for all others,
exactly when every call of the run is fine. -/
theorem consistent_iff (m : SubsMap hash) (es : List (Call × Bool)) :
    (∀ pre post, es = pre ++ post →
      Consistent ((sys hash).exec (start m) pre) ∧ Retries ((sys hash).exec (start m) pre)) ↔
    AtEach (fun pre e => Fine ((sys hash).exec (start m) pre) e) es := by
  rw [← (sys hash).forall_prefix_iff (I := Consistent) (fun s e h _ => next_consistent_iff s e h)
    (start m) es (consistent_start m) ((sys hash).admits_of_forall (fun _ _ _ => trivial) _)]
  exact forall₃_congr fun pre post heq => ⟨And.left, fun h => ⟨h, retries_of_consistent h⟩⟩

/-- A subscribe the engine does not answer: the map holds the instrument, and the
second subscribe asks for nothing. -/
theorem not_retried : ¬ ∀ pre post, [(Call.subscribe [⟨"rb1901", "rb"⟩] ["rb"], false)] =
    pre ++ post →
      Consistent ((sys fun s => s.length.toUInt32).exec (start SubsMap.empty) pre) ∧
      Retries ((sys fun s => s.length.toUInt32).exec (start SubsMap.empty) pre) := by
  intro h
  have hin := ((h _ [] (List.append_nil _).symm).1 "rb1901").mp (by decide +kernel)
  revert hin
  decide +kernel

end Tracked

end NatFramework.Md
