import Mathlib.Algebra.BigOperators.Group.Finset.Piecewise
import Mathlib.Algebra.BigOperators.Ring.Finset
import Mathlib.Algebra.Order.Group.Unbundled.Int
import Mathlib.Data.Fintype.Basic
import NatFramework.Md.IMDHelper

/-!
# Subscriptions counted by the engine

`IMDEngine` counts for every instrument how many clients have asked for it, and
unsubscribes at the front when nobody is left. A client asks only for what is not
in its own map, and gives back only what is, except in `forceUnsubscribe`, which
gives back whatever it is told to.

* `subscribeCount_spec`, `unsubscribeCount_spec`: the counts after a request.
* `Market.counted_next_iff`: a call keeps the counts the numbers of holders exactly
  when it forces nothing that only others hold.
* `Market.counted_iff`: the same of any number of clients and any run.
-/
namespace NatFramework.Md

open Lib

variable {hash : String → UInt32}

/-- The base information, which the engine has and the clients copy. It is kept in a
map under the hash of the name, and a name asks for its own instrument only.
mirrors common/CTradeBaseInfo.h:65 -/
structure BaseInfo (hash : String → UInt32) where
  instrInfo : List InstrInfo
  keyed : ∀ a ∈ instrInfo, ∀ b ∈ instrInfo, hash a.instr = hash b.instr → a.instr = b.instr
  named : ∀ a ∈ instrInfo, ∀ b ∈ instrInfo, Asks a.instr b → b.instr = a.instr

/-- The instrument is listed. -/
def BaseInfo.Lists (B : BaseInfo hash) (i : String) : Prop := ∃ info ∈ B.instrInfo, info.instr = i

theorem BaseInfo.lists_of_mem {B : BaseInfo hash} {product : List String} {i : String}
    (h : i ∈ productToInstrSet B.instrInfo product) : B.Lists i := by
  obtain ⟨_, _, info, hinfo, _, heq⟩ := mem_productToInstrSet.mp h
  exact ⟨info, hinfo, heq⟩

theorem BaseInfo.eq_of_hash {B : BaseInfo hash} {i j : String} (hi : B.Lists i) (hj : B.Lists j)
    (h : hash i = hash j) : i = j := by
  obtain ⟨a, ha, rfl⟩ := hi
  obtain ⟨b, hb, rfl⟩ := hj
  exact B.keyed a ha b hb h

/-- Listed names ask for themselves. -/
theorem BaseInfo.mem_request {B : BaseInfo hash} {q : List String} (hq : ∀ i ∈ q, B.Lists i)
    (t : String) : t ∈ productToInstrSet B.instrInfo q ↔ t ∈ q := by
  rw [mem_productToInstrSet]
  constructor
  · rintro ⟨i, hi, info, hinfo, hasks, rfl⟩
    obtain ⟨a, ha, rfl⟩ := hq i hi
    rw [B.named a ha info hinfo hasks]
    exact hi
  · intro ht
    obtain ⟨a, ha, rfl⟩ := hq t ht
    exact ⟨a.instr, ht, a, ha, .inl rfl, rfl⟩

/-! ## The engine -/

/-- `subs_instr_`.
mirrors md/IMDEngine.h:81 -/
abbrev Counts := String → Option Int

/-- The loop of `engine_subscribe`: `real_subs` and the counts.
mirrors md/IMDEngine.cpp:200-211 -/
def subscribeCount : List String → List String × Counts → List String × Counts
  | [], r => r
  | i :: is, (real, subs) =>
    match subs i with
    | none => subscribeCount is (real ++ [i], Function.update subs i (some 1))
    | some c => subscribeCount is (real, Function.update subs i (some (c + 1)))

/-- The loop of `engine_unsubscribe`: `real_unsubs` and the counts.
mirrors md/IMDEngine.cpp:219-229 -/
def unsubscribeCount : List String → List String × Counts → List String × Counts
  | [], r => r
  | i :: is, (real, subs) =>
    match subs i with
    | none => unsubscribeCount is (real, subs)
    | some c =>
      if c - 1 ≤ 0 then unsubscribeCount is (real ++ [i], Function.update subs i none)
      else unsubscribeCount is (real, Function.update subs i (some (c - 1)))

/-- One user less. -/
def oneLess : Option Int → Option Int
  | none => none
  | some c => if c - 1 ≤ 0 then none else some (c - 1)

/-- A count changed outside a list leaves what a filter by counts takes of it. -/
theorem filter_update {S : List String} {i : String} (hi : i ∉ S) (subs : Counts) (c : Option Int)
    (p : Option Int → Bool) :
    S.filter (fun j => p (Function.update subs i c j)) = S.filter fun j => p (subs j) :=
  List.filter_congr fun j hj => by
    rw [Function.update_of_ne (ne_of_mem_of_not_mem hj hi)]

theorem subscribeCount_spec {S : List String} (hS : S.Nodup) (real : List String) (subs : Counts) :
    (subscribeCount S (real, subs)).1 = real ++ S.filter (fun i => subs i = none) ∧
    ∀ i, (subscribeCount S (real, subs)).2 i =
      if i ∈ S then some ((subs i).getD 0 + 1) else subs i := by
  induction S generalizing real subs with
  | nil => simp [subscribeCount]
  | cons i is ih =>
    obtain ⟨hi, his⟩ := List.nodup_cons.mp hS
    rw [subscribeCount]
    cases hc : subs i with
    | none =>
      obtain ⟨hreal, hsubs⟩ := ih his (real ++ [i]) (Function.update subs i (some 1))
      refine ⟨?_, fun j => ?_⟩
      · rw [hreal, filter_update hi subs _ (· = none)]
        simp [hc]
      · rw [hsubs]
        by_cases hj : j = i
        · subst hj
          simp [hi, hc]
        · simp [hj]
    | some c =>
      obtain ⟨hreal, hsubs⟩ := ih his real (Function.update subs i (some (c + 1)))
      refine ⟨?_, fun j => ?_⟩
      · rw [hreal, filter_update hi subs _ (· = none)]
        simp [hc]
      · rw [hsubs]
        by_cases hj : j = i
        · subst hj
          simp [hi, hc]
        · simp [hj]

theorem unsubscribeCount_cons (i : String) (is real : List String) (subs : Counts) :
    unsubscribeCount (i :: is) (real, subs) =
      unsubscribeCount is (if subs i ≠ none ∧ oneLess (subs i) = none then real ++ [i] else real,
        Function.update subs i (oneLess (subs i))) := by
  rw [unsubscribeCount]
  cases hc : subs i with
  | none => simp [oneLess, ← hc]
  | some c => by_cases hle : c - 1 ≤ 0 <;> simp [oneLess, hle]

theorem unsubscribeCount_spec {S : List String} (hS : S.Nodup) (real : List String)
    (subs : Counts) :
    (unsubscribeCount S (real, subs)).1 =
      real ++ S.filter (fun i => subs i ≠ none ∧ oneLess (subs i) = none) ∧
    ∀ i, (unsubscribeCount S (real, subs)).2 i = if i ∈ S then oneLess (subs i) else subs i := by
  induction S generalizing real subs with
  | nil => simp [unsubscribeCount]
  | cons i is ih =>
    obtain ⟨hi, his⟩ := List.nodup_cons.mp hS
    rw [unsubscribeCount_cons]
    obtain ⟨hreal, hsubs⟩ := ih his
      (if subs i ≠ none ∧ oneLess (subs i) = none then real ++ [i] else real)
      (Function.update subs i (oneLess (subs i)))
    refine ⟨?_, fun j => ?_⟩
    · rw [hreal, filter_update hi subs _ fun c => c ≠ none ∧ oneLess c = none]
      by_cases hgone : subs i ≠ none ∧ oneLess (subs i) = none
      · simp [hgone]
      · rw [if_neg hgone, List.filter_cons_of_neg (by simpa using hgone)]
    · rw [hsubs]
      by_cases hj : j = i
      · subst hj
        simp [hi]
      · simp [hj]

/-- The counts, and the instruments the front sends ticks of. -/
structure IMDEngine where
  subsInstr : Counts := fun _ => none
  front : String → Bool := fun _ => false

namespace IMDEngine

/-- `subscribe` at the front for `real_subs`.
mirrors md/IMDEngine.cpp:199-212 -/
def engineSubscribe (B : BaseInfo hash) (e : IMDEngine) (instr : List String) : IMDEngine :=
  let r := subscribeCount (productToInstrSet B.instrInfo instr) ([], e.subsInstr)
  { subsInstr := r.2, front := fun i => e.front i || decide (i ∈ r.1) }

/-- What `engine_unsubscribe` gives to `unsubscribe` of the front. -/
def realUnsubs (B : BaseInfo hash) (e : IMDEngine) (instr : List String) : List String :=
  (unsubscribeCount (productToInstrSet B.instrInfo instr) ([], e.subsInstr)).1

/-- mirrors md/IMDEngine.cpp:217-231 -/
def engineUnsubscribe (B : BaseInfo hash) (e : IMDEngine) (instr : List String) : IMDEngine :=
  let r := unsubscribeCount (productToInstrSet B.instrInfo instr) ([], e.subsInstr)
  { subsInstr := r.2, front := fun i => e.front i && decide (i ∉ e.realUnsubs B instr) }

/-- The counts are of users there are, and the front sends what has a count. -/
structure Ok (e : IMDEngine) : Prop where
  pos : ∀ i c, e.subsInstr i = some c → 0 < c
  front : ∀ i, e.front i = (e.subsInstr i).isSome

variable {B : BaseInfo hash} {e : IMDEngine}

theorem engineSubscribe_subsInstr (B : BaseInfo hash) (e : IMDEngine) (q : List String) :
    (e.engineSubscribe B q).subsInstr =
      (subscribeCount (productToInstrSet B.instrInfo q) ([], e.subsInstr)).2 := rfl

theorem engineUnsubscribe_subsInstr (B : BaseInfo hash) (e : IMDEngine) (q : List String) :
    (e.engineUnsubscribe B q).subsInstr =
      (unsubscribeCount (productToInstrSet B.instrInfo q) ([], e.subsInstr)).2 := rfl

theorem subscribe_spec (B : BaseInfo hash) (e : IMDEngine) {q : List String}
    (hq : ∀ i ∈ q, B.Lists i) (i : String) : (e.engineSubscribe B q).subsInstr i =
      if i ∈ q then some ((e.subsInstr i).getD 0 + 1) else e.subsInstr i := by
  rw [engineSubscribe_subsInstr,
    (subscribeCount_spec (nodup_productToInstrSet _ _) [] e.subsInstr).2 i]
  exact if_congr (B.mem_request hq i) rfl rfl

theorem unsubscribe_spec (B : BaseInfo hash) (e : IMDEngine) {q : List String}
    (hq : ∀ i ∈ q, B.Lists i) (i : String) : (e.engineUnsubscribe B q).subsInstr i =
      if i ∈ q then oneLess (e.subsInstr i) else e.subsInstr i := by
  rw [engineUnsubscribe_subsInstr,
    (unsubscribeCount_spec (nodup_productToInstrSet _ _) [] e.subsInstr).2 i]
  exact if_congr (B.mem_request hq i) rfl rfl

theorem mem_realUnsubs (B : BaseInfo hash) (e : IMDEngine) {q : List String}
    (hq : ∀ i ∈ q, B.Lists i) {i : String} : i ∈ e.realUnsubs B q ↔
      i ∈ q ∧ e.subsInstr i ≠ none ∧ oneLess (e.subsInstr i) = none := by
  rw [realUnsubs, (unsubscribeCount_spec (nodup_productToInstrSet _ _) [] e.subsInstr).1,
    List.nil_append, List.mem_filter, B.mem_request hq, decide_eq_true_iff]

theorem oneLess_getD {c : Option Int} (h : ∀ d, c = some d → 0 < d) (hne : c ≠ none) :
    (oneLess c).getD 0 = c.getD 0 - 1 := by
  cases c with
  | none => exact absurd rfl hne
  | some d =>
    have := h d rfl
    rw [oneLess, Option.getD_some]
    split
    · rw [Option.getD_none]
      omega
    · rw [Option.getD_some]

theorem ok_subscribe (h : Ok e) (instr : List String) : Ok (e.engineSubscribe B instr) := by
  have hspec := subscribeCount_spec (nodup_productToInstrSet B.instrInfo instr) [] e.subsInstr
  refine ⟨fun i c hc => ?_, fun i => ?_⟩
  · rw [engineSubscribe_subsInstr, hspec.2 i] at hc
    split at hc
    · cases hc
      cases hi : e.subsInstr i with
      | none => simp
      | some d =>
        have := h.pos i d hi
        simp only [Option.getD_some]
        omega
    · exact h.pos i c hc
  · simp only [engineSubscribe, hspec.1, hspec.2 i, h.front i, List.nil_append, List.mem_filter]
    by_cases hi : i ∈ productToInstrSet B.instrInfo instr
    · cases e.subsInstr i <;> simp [hi]
    · simp [hi]

theorem ok_unsubscribe (h : Ok e) (instr : List String) : Ok (e.engineUnsubscribe B instr) := by
  have hspec := unsubscribeCount_spec (nodup_productToInstrSet B.instrInfo instr) [] e.subsInstr
  refine ⟨fun i c hc => ?_, fun i => ?_⟩
  · rw [engineUnsubscribe_subsInstr, hspec.2 i] at hc
    split at hc
    · cases hi : e.subsInstr i with
      | none =>
        rw [hi] at hc
        cases hc
      | some d =>
        rw [hi, oneLess] at hc
        split at hc
        · cases hc
        · cases hc
          omega
    · exact h.pos i c hc
  · simp only [engineUnsubscribe, realUnsubs, hspec.1, hspec.2 i, h.front i, List.nil_append,
      List.mem_filter]
    by_cases hi : i ∈ productToInstrSet B.instrInfo instr
    · cases hc : e.subsInstr i with
      | none => simp [hi, oneLess]
      | some c => cases oneLess (some c) <;> simp [hi]
    · simp [hi]

end IMDEngine

/-! ## Clients and engine -/

/-- A call of a client. -/
inductive Op where
  | subscribe (instr : List String)
  | unsubscribe (instr : List String)
  | forceUnsubscribe (instr : List String)
  | clear
  deriving DecidableEq, Repr

/-- The calls that give back. -/
def Op.GivesBack : Op → Prop
  | subscribe _ => False
  | _ => True

theorem Op.eq_subscribe {op : Op} (h : ¬ op.GivesBack) : ∃ instr, op = .subscribe instr := by
  cases op with
  | subscribe instr => exact ⟨instr, rfl⟩
  | unsubscribe instr => exact absurd trivial h
  | forceUnsubscribe instr => exact absurd trivial h
  | clear => exact absurd trivial h

def Op.call (B : BaseInfo hash) : Op → Call
  | subscribe instr => .subscribe B.instrInfo instr
  | unsubscribe instr => .unsubscribe B.instrInfo instr
  | forceUnsubscribe instr => .forceUnsubscribe B.instrInfo instr
  | clear => .clear

/-- `n` clients of one engine, whose own list is `own`. -/
structure Market (hash : String → UInt32) (n : Nat) where
  helpers : Fin n → SubsMap hash
  engine : IMDEngine
  own : List String

namespace Market

variable {n : Nat}

/-- The engine with what its configuration subscribes to, and no client yet.
mirrors md/IMDEngine.cpp:109-113 -/
def start (B : BaseInfo hash) (n : Nat) (own : List String) : Market hash n where
  helpers := fun _ => SubsMap.empty
  engine := ({} : IMDEngine).engineSubscribe B own
  own := own

/-- A client's request, if there is anything to ask for, as the engine handles it.
mirrors md/CMDHelperComm.cpp:104-130, md/IMDEngine.cpp:143-165 -/
def handle (B : BaseInfo hash) (e : IMDEngine) (op : Op) (instr : List String) : IMDEngine :=
  if instr = [] then e
  else
    match op with
    | .subscribe _ => e.engineSubscribe B instr
    | _ => e.engineUnsubscribe B instr

def next (B : BaseInfo hash) (s : Market hash n) (e : Fin n × Op) : Market hash n :=
  let r := (e.2.call B).run (s.helpers e.1)
  { s with
    helpers := Function.update s.helpers e.1 r.2
    engine := handle B s.engine e.2 r.1 }

/-- What the front is asked to unsubscribe in a step. -/
def frontUnsubs (B : BaseInfo hash) (s : Market hash n) (e : Fin n × Op) : List String :=
  match e.2 with
  | .subscribe _ => []
  | op =>
    let r := (op.call B).run (s.helpers e.1)
    if r.1 = [] then [] else s.engine.realUnsubs B r.1

def sys (B : BaseInfo hash) (n : Nat) : Sys (Market hash n) (Fin n × Op) where
  start s := ∃ own, s = start B n own
  ok _ _ := True
  next := next B

/-- How many clients hold the instrument, and one more if the engine itself does. -/
def number (B : BaseInfo hash) (s : Market hash n) (i : String) : Int :=
  (Finset.univ.filter fun k => i ∈ (s.helpers k).names).card +
    if i ∈ productToInstrSet B.instrInfo s.own then 1 else 0

/-- The counts are the numbers of holders, and whoever holds an instrument gets its
ticks. -/
structure Counted (B : BaseInfo hash) (s : Market hash n) : Prop where
  count : ∀ i, (s.engine.subsInstr i).getD 0 = s.number B i
  served : ∀ k, ∀ i ∈ (s.helpers k).names, s.engine.front i = true

/-- What is forced is held by the client itself, or by nobody. -/
def Fine (B : BaseInfo hash) (s : Market hash n) (e : Fin n × Op) : Prop :=
  match e.2 with
  | .forceUnsubscribe instr => ∀ i ∈ productToInstrSet B.instrInfo instr,
      i ∈ (s.helpers e.1).names ∨ s.number B i = 0
  | _ => True

/-- What holds whatever is forced. -/
structure Sane (B : BaseInfo hash) (s : Market hash n) : Prop where
  listed : ∀ k, ∀ i ∈ (s.helpers k).names, B.Lists i
  engine : s.engine.Ok

/-! ## One client changes -/

variable {B : BaseInfo hash} {s : Market hash n} {k : Fin n} {m' : SubsMap hash}

def ind (m : SubsMap hash) (i : String) : Int := if i ∈ m.names then 1 else 0

theorem number_update (e : IMDEngine) (i : String) :
    number B { s with helpers := Function.update s.helpers k m', engine := e } i =
      number B s i - ind (s.helpers k) i + ind m' i := by
  have hsum : ∀ helpers : Fin n → SubsMap hash,
      ((Finset.univ.filter fun k => i ∈ (helpers k).names).card : Int) =
        ∑ k, ind (helpers k) i := fun helpers => Finset.natCast_card_filter _ _
  have hupd : ∀ k', ind (Function.update s.helpers k m' k') i =
      Function.update (fun k' => ind (s.helpers k') i) k (ind m' i) k' := fun k' => by
    by_cases hk : k' = k
    · subst hk
      simp
    · simp [hk]
  simp only [number, hsum, hupd]
  rw [Finset.sum_update_of_mem (Finset.mem_univ k),
    Finset.sum_eq_add_sum_sdiff_singleton_of_mem (Finset.mem_univ k) fun k' => ind (s.helpers k') i]
  omega

theorem number_pos {i : String} (h : i ∈ (s.helpers k).names) : 0 < number B s i := by
  have hcard : 0 < (Finset.univ.filter fun k => i ∈ (s.helpers k).names).card :=
    Finset.card_pos.mpr ⟨k, by simpa using h⟩
  unfold number
  split <;> omega

theorem number_eq_zero_iff (h : Sane B s)
    (hcount : ∀ i, (s.engine.subsInstr i).getD 0 = s.number B i) (i : String) :
    s.number B i = 0 ↔ s.engine.subsInstr i = none := by
  rw [← hcount i]
  cases hc : s.engine.subsInstr i with
  | none => simp
  | some c =>
    have := h.engine.pos i c hc
    simp only [Option.getD_some, reduceCtorEq, iff_false]
    omega

/-- Whoever holds an instrument is counted, so the front sends it. -/
theorem counted_of_count (h : Sane B s)
    (hcount : ∀ i, (s.engine.subsInstr i).getD 0 = s.number B i) : Counted B s := by
  refine ⟨hcount, fun k i hi => ?_⟩
  rw [h.engine.front, Option.isSome_iff_ne_none, ne_eq, ← number_eq_zero_iff h hcount]
  have := number_pos (B := B) hi
  omega

/-! ## One call -/

/-- A request for instruments that come into the client's map. -/
theorem count_added (hcount : ∀ i, (s.engine.subsInstr i).getD 0 = s.number B i)
    {q : List String} (hq : ∀ i ∈ q, B.Lists i) (hnames : m'.names = (s.helpers k).names ++ q)
    (habsent : ∀ i ∈ q, i ∉ (s.helpers k).names) (i : String) :
    ((s.engine.engineSubscribe B q).subsInstr i).getD 0 =
      number B { s with
        helpers := Function.update s.helpers k m'
        engine := s.engine.engineSubscribe B q } i := by
  rw [s.engine.subscribe_spec B hq, number_update]
  by_cases hi : i ∈ q
  · simp [hi, ind, hnames, habsent i hi, hcount]
  · simp [hi, ind, hnames, hcount]

/-- A request for instruments that go: the client's map loses those of `q`. -/
theorem count_removed (h : Sane B s) (hcount : ∀ i, (s.engine.subsInstr i).getD 0 = s.number B i)
    {q : List String} (hq : ∀ i ∈ q, B.Lists i)
    (hnames : ∀ j, j ∈ m'.names ↔ j ∈ (s.helpers k).names ∧ j ∉ q) :
    (∀ i, ((s.engine.engineUnsubscribe B q).subsInstr i).getD 0 =
      number B { s with
        helpers := Function.update s.helpers k m'
        engine := s.engine.engineUnsubscribe B q } i) ↔
    ∀ i ∈ q, i ∈ (s.helpers k).names ∨ s.number B i = 0 := by
  refine forall_congr' fun i => ?_
  rw [s.engine.unsubscribe_spec B hq, number_update]
  by_cases hi : i ∈ q
  · have hpos := h.engine.pos i
    have hzero := number_eq_zero_iff h hcount i
    rw [if_pos hi]
    by_cases hin : i ∈ (s.helpers k).names
    · have hne : s.engine.subsInstr i ≠ none := fun hnone =>
        (number_pos (B := B) hin).ne' (hzero.mpr hnone)
      rw [IMDEngine.oneLess_getD hpos hne, hcount]
      simp [ind, hnames, hi, hin]
    · by_cases hnone : s.engine.subsInstr i = none
      · simp [ind, hnames, hi, hin, hnone, oneLess, hzero.mpr hnone]
      · -- the count goes down, but nobody has let go
        rw [IMDEngine.oneLess_getD hpos hnone, hcount]
        simp [ind, hnames, hi, hin, mt hzero.mp hnone]
  · simp [hi, ind, hnames, hcount]

/-- An empty request is not sent, and would change nothing. -/
theorem engineSubscribe_nil (e : IMDEngine) : e.engineSubscribe B [] = e := by
  have hset : productToInstrSet B.instrInfo [] = [] := rfl
  simp [IMDEngine.engineSubscribe, hset, subscribeCount]

theorem engineUnsubscribe_nil (e : IMDEngine) : e.engineUnsubscribe B [] = e := by
  have hset : productToInstrSet B.instrInfo [] = [] := rfl
  simp [IMDEngine.engineUnsubscribe, IMDEngine.realUnsubs, hset, unsubscribeCount]

theorem handle_subscribe (e : IMDEngine) (instr q : List String) :
    handle B e (.subscribe instr) q = e.engineSubscribe B q := by
  unfold handle
  split
  · rw [‹q = []›, engineSubscribe_nil]
  · rfl

theorem handle_unsubscribe (e : IMDEngine) {op : Op} (hop : Op.GivesBack op) (q : List String) :
    handle B e op q = e.engineUnsubscribe B q := by
  unfold handle
  split
  · rw [‹q = []›, engineUnsubscribe_nil]
  · cases op with
    | subscribe instr => exact hop.elim
    | unsubscribe instr => rfl
    | forceUnsubscribe instr => rfl
    | clear => rfl

/-- A subscribe asks for listed instruments that come into the map. -/
theorem run_subscribe (B : BaseInfo hash) (m : SubsMap hash) (instr : List String) :
    ∃ q m', (Op.call B (.subscribe instr)).run m = (q, m') ∧ (∀ i ∈ q, B.Lists i) ∧
      m'.names = m.names ++ q ∧ ∀ i ∈ q, i ∉ m.names := by
  obtain ⟨q, hreal, hadded⟩ := subscribeLoop_spec (productToInstrSet B.instrInfo instr) ([], m)
  refine ⟨q, _, Prod.ext hreal rfl, fun i hi => B.lists_of_mem (hadded.sublist.subset hi),
    hadded.names, fun i hi hin => ?_⟩
  have habsent := hadded.absent i hi
  rw [SubsMap.has_of_mem hin] at habsent
  cases habsent

/-- The other calls ask for listed instruments, which go from the map; those of a
forced call need not have been there. -/
theorem run_givesBack (h : ∀ i ∈ (s.helpers k).names, B.Lists i) {op : Op} (hop : op.GivesBack) :
    ∃ q m', (op.call B).run (s.helpers k) = (q, m') ∧ (∀ i ∈ q, B.Lists i) ∧
      (∀ j, j ∈ m'.names ↔ j ∈ (s.helpers k).names ∧ j ∉ q) ∧
      ((∀ i ∈ q, i ∈ (s.helpers k).names ∨ s.number B i = 0) ↔ Fine B s (k, op)) := by
  -- among listed instruments the hashes tell the names
  have hhash : ∀ {S : List String} {j : String}, (∀ i ∈ S, B.Lists i) → j ∈ (s.helpers k).names →
      ((∀ i ∈ S, hash i ≠ hash j) ↔ j ∉ S) := fun hS hj =>
    ⟨fun hall hin => hall _ hin rfl, fun hout i hi heq =>
      hout (B.eq_of_hash (hS i hi) (h _ hj) heq ▸ hi)⟩
  cases op with
  | subscribe instr => exact hop.elim
  | unsubscribe instr =>
    obtain ⟨q, hreal, hrem⟩ :=
      unsubscribeLoop_spec (productToInstrSet B.instrInfo instr) ([], s.helpers k)
    have hS : ∀ i ∈ productToInstrSet B.instrInfo instr, B.Lists i := fun i => B.lists_of_mem
    have hmem : ∀ i, i ∈ q ↔ i ∈ productToInstrSet B.instrInfo instr ∧
        i ∈ (s.helpers k).names := fun i => by
      constructor
      · intro hi
        obtain ⟨j, hj, heq⟩ := SubsMap.has_iff.mp (hrem.present i hi)
        have hin := hrem.sublist.subset hi
        exact ⟨hin, B.eq_of_hash (h j hj) (hS i hin) heq ▸ hj⟩
      · rintro ⟨hi, hin⟩
        obtain ⟨j, hj, heq⟩ := hrem.covered i hi (SubsMap.has_of_mem hin)
        exact B.eq_of_hash (hS j (hrem.sublist.subset hj)) (hS i hi) heq ▸ hj
    refine ⟨q, _, Prod.ext hreal rfl, fun i hi => hS i ((hmem i).mp hi).1, fun j => ?_,
      iff_of_true (fun i hi => .inl ((hmem i).mp hi).2) trivial⟩
    refine (hrem.names j).trans (and_congr_right fun hj => (hhash hS hj).trans ?_)
    rw [hmem]
    exact ⟨fun hout hin => hout hin.1, fun hout hin => hout ⟨hin, hj⟩⟩
  | forceUnsubscribe instr =>
    obtain ⟨hreal, hnames⟩ := forceLoop_spec (productToInstrSet B.instrInfo instr) ([], s.helpers k)
    refine ⟨productToInstrSet B.instrInfo instr, _, Prod.ext hreal rfl, fun i => B.lists_of_mem,
      fun j => ?_, Iff.rfl⟩
    exact (hnames j).trans (and_congr_right fun hj => hhash (fun i => B.lists_of_mem) hj)
  | clear =>
    exact ⟨(s.helpers k).names, _, rfl, h, fun j => by simp,
      iff_of_true (fun i hi => .inl hi) trivial⟩

theorem next_eq (s : Market hash n) (k : Fin n) (op : Op) {q : List String}
    (hrun : (op.call B).run (s.helpers k) = (q, m')) : next B s (k, op) = { s with
      helpers := Function.update s.helpers k m'
      engine := handle B s.engine op q } := by
  simp only [next, hrun]

/-- The client's new map is of listed instruments. -/
theorem listed_update (h : Sane B s) (hm : ∀ i ∈ m'.names, B.Lists i) (k' : Fin n) :
    ∀ i ∈ (Function.update s.helpers k m' k').names, B.Lists i := by
  by_cases hk : k' = k
  · subst hk
    simpa using hm
  · simpa [hk] using h.listed k'

theorem sane_next (h : Sane B s) (e : Fin n × Op) : Sane B (next B s e) := by
  obtain ⟨k, op⟩ := e
  by_cases hop : op.GivesBack
  · obtain ⟨q, m', hrun, -, hnames, -⟩ := run_givesBack (h.listed k) hop
    rw [next_eq s k op hrun, handle_unsubscribe _ hop]
    exact ⟨listed_update h fun i hi => h.listed k i ((hnames i).mp hi).1,
      IMDEngine.ok_unsubscribe h.engine q⟩
  · obtain ⟨instr, rfl⟩ := Op.eq_subscribe hop
    obtain ⟨q, m', hrun, hq, hnames, -⟩ := run_subscribe B (s.helpers k) instr
    rw [next_eq s k _ hrun, handle_subscribe]
    refine ⟨listed_update h fun i hi => ?_, IMDEngine.ok_subscribe h.engine q⟩
    rw [hnames] at hi
    exact (List.mem_append.mp hi).elim (h.listed k i) (hq i)

/-- A call keeps the counts the numbers of holders exactly when it is fine. -/
theorem counted_next_iff (h : Sane B s) (hs : Counted B s) (e : Fin n × Op) :
    Counted B (next B s e) ↔ Fine B s e := by
  have hsane := sane_next h e
  obtain ⟨k, op⟩ := e
  by_cases hop : op.GivesBack
  · obtain ⟨q, m', hrun, hq, hnames, hfine⟩ := run_givesBack (h.listed k) hop
    rw [next_eq s k op hrun, handle_unsubscribe _ hop] at hsane ⊢
    rw [← hfine, ← count_removed h hs.count hq hnames]
    exact ⟨Counted.count, counted_of_count hsane⟩
  · obtain ⟨instr, rfl⟩ := Op.eq_subscribe hop
    obtain ⟨q, m', hrun, hq, hnames, habsent⟩ := run_subscribe B (s.helpers k) instr
    rw [next_eq s k _ hrun, handle_subscribe] at hsane ⊢
    exact iff_of_true (counted_of_count hsane (count_added hs.count hq hnames habsent)) trivial

/-! ## Runs -/

theorem sane_start (B : BaseInfo hash) (n : Nat) (own : List String) : Sane B (start B n own) :=
  ⟨fun _ _ hi => (List.not_mem_nil hi).elim,
    IMDEngine.ok_subscribe ⟨fun _ _ hc => (Option.some_ne_none _ hc.symm).elim, fun _ => rfl⟩ own⟩

theorem counted_start (B : BaseInfo hash) (n : Nat) (own : List String) :
    Counted B (start B n own) := by
  refine counted_of_count (sane_start B n own) fun i => ?_
  rw [start, IMDEngine.engineSubscribe_subsInstr,
    (subscribeCount_spec (nodup_productToInstrSet _ _) [] _).2 i]
  by_cases hi : i ∈ productToInstrSet B.instrInfo own <;> simp [number, hi]

theorem realUnsubs_of_frontUnsubs {op : Op} (hop : op.GivesBack) {q : List String}
    (hrun : (op.call B).run (s.helpers k) = (q, m')) {i : String}
    (hi : i ∈ s.frontUnsubs B (k, op)) : i ∈ s.engine.realUnsubs B q := by
  have hfront : s.frontUnsubs B (k, op) = if q = [] then [] else s.engine.realUnsubs B q := by
    cases op with
    | subscribe instr => exact hop.elim
    | unsubscribe instr => simp only [frontUnsubs, hrun]
    | forceUnsubscribe instr => simp only [frontUnsubs, hrun]
    | clear => simp only [frontUnsubs, hrun]
  rw [hfront] at hi
  split at hi
  · cases hi
  · exact hi

/-- What the front is asked to give up has no holder left. -/
theorem number_of_frontUnsubs (h : Sane B s) {e : Fin n × Op} (hnext : Counted B (next B s e)) :
    ∀ i ∈ s.frontUnsubs B e, (next B s e).number B i = 0 := by
  obtain ⟨k, op⟩ := e
  intro i hi
  by_cases hop : op.GivesBack
  · obtain ⟨q, m', hrun, hq, -, -⟩ := run_givesBack (h.listed k) hop
    obtain ⟨hin, -, hgone⟩ :=
      (s.engine.mem_realUnsubs B hq).mp (realUnsubs_of_frontUnsubs hop hrun hi)
    rw [← hnext.count, next_eq s k op hrun, handle_unsubscribe _ hop]
    rw [s.engine.unsubscribe_spec B hq, if_pos hin, hgone, Option.getD_none]
  · obtain ⟨instr, rfl⟩ := Op.eq_subscribe hop
    cases hi

/-- With any number of clients and in any run, the counts are the numbers of holders
in every state, and the front is asked to give up only what has no holder left,
exactly when every forced call is for what its client holds or nobody does. -/
theorem counted_iff (B : BaseInfo hash) (n : Nat) (own : List String) (es : List (Fin n × Op)) :
    ((∀ pre post, es = pre ++ post → Counted B ((sys B n).exec (start B n own) pre)) ∧
      AtEach (fun pre e => ∀ i ∈ ((sys B n).exec (start B n own) pre).frontUnsubs B e,
        ((sys B n).exec (start B n own) (pre ++ [e])).number B i = 0) es) ↔
    AtEach (fun pre e => Fine B ((sys B n).exec (start B n own) pre) e) es := by
  have hadmits : (sys B n).Admits (start B n own) es :=
    (sys B n).admits_of_forall (fun _ _ _ => trivial) _
  have hsane : ∀ pre post, es = pre ++ post → Sane B ((sys B n).exec (start B n own) pre) :=
    fun pre post _ => (sys B n).invariant_run (I := Sane B) (fun s e hs _ => sane_next hs e) _ pre
      (sane_start B n own) ((sys B n).admits_of_forall (fun _ _ _ => trivial) _)
  have hiff := (sys B n).forall_prefix_iff (I := fun s => Sane B s ∧ Counted B s) (P := Fine B)
    (fun s e h _ => (and_iff_right (sane_next h.1 e)).trans (counted_next_iff h.1 h.2 e))
    (start B n own) es ⟨sane_start B n own, counted_start B n own⟩ hadmits
  rw [← hiff]
  constructor
  · rintro ⟨hcounted, -⟩ pre post heq
    exact ⟨hsane pre post heq, hcounted pre post heq⟩
  · intro h
    refine ⟨fun pre post heq => (h pre post heq).2, ?_⟩
    rintro pre e post rfl i hi
    have hnext := (h (pre ++ [e]) post (by simp)).2
    rw [(sys B n).exec_append] at hnext ⊢
    exact number_of_frontUnsubs (h pre (e :: post) rfl).1 hnext i hi

/-- One listed instrument. -/
def oneInstr : BaseInfo fun s => s.length.toUInt32 where
  instrInfo := [⟨"rb1901", "rb"⟩]
  keyed := by simp
  named := by simp

/-- Client 0 holds the instrument; client 1 forces it out of the engine. -/
theorem forced_out : ¬ Counted oneInstr ((sys oneInstr 2).exec (start oneInstr 2 [])
    [(0, .subscribe ["rb1901"]), (1, .forceUnsubscribe ["rb1901"])]) := by
  intro h
  have hserved := h.served 0 "rb1901" (by decide +kernel)
  revert hserved
  decide +kernel

end Market

end NatFramework.Md
