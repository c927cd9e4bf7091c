import NatFramework.Lib.GrowVec
import NatFramework.Lib.Run
import NatFramework.Risk.RiskTop

/-!
# The storage of the treap nodes

`RiskInstrTop` with `vec_treap_node` itself: the treaps link addresses of its
elements, and every comparison reads the node behind an address. Nodes are
appended by `onNew` and never removed, so that the vector outgrows the 1024
places its constructor reserves; the nodes linked then are left behind in
storage that is given up.

* `LinksValid`: every linked address has behind it the node inserted there.
* `linksValid_iff`: it holds through a run exactly when no order comes in while
  the vector is full and an order is linked.
* `forget_exec`, `check_forget`: as long as it holds the treaps are those of
  `RiskInstrTop`, which holds nodes by value.
-/
namespace NatFramework.Risk

open Lib Account

/-- A linked node: where it is, and what was inserted. The code has the address
only. -/
structure Linked where
  addr : GrowVec.Addr
  node : TreapNode
  deriving DecidableEq, Repr

/-- `RiskInstrTop` with its nodes in storage.
mirrors risk/RiskInstrTop.h:47-62 -/
structure StoredTop extends RiskInstr where
  vecTreapNode : GrowVec TreapNode := { capacity := 1024 }
  askTreap : List Linked := []
  bidTreap : List Linked := []
  deriving DecidableEq, Repr

/-- The calls of one instrument. -/
inductive TopEvent where
  | onNew (dir : Dir) (px : ℚ) (orderRef nano : Int)
  | onCxl (t : OrderTrack)
  | onTrd (t : OrderTrack)
  | onSwitchDay
  deriving DecidableEq, Repr

namespace StoredTop

/-- `erase` of a treap: the linked nodes that read as the key. What is behind an
address that is left behind is not known; it stays linked.
mirrors risk/RiskInstrTop.h:30-32 -/
def erase (v : GrowVec TreapNode) (orderRef : Int) (t : List Linked) : List Linked :=
  t.filter fun l => (v.deref l.addr).map (·.orderRef) ≠ some orderRef

/-- `top` of a treap. -/
def top (v : GrowVec TreapNode) (t : List Linked) : Option TreapNode :=
  (listOps TreapNode.orderRef TreapNode.priorityOrder).top (t.filterMap fun l => v.deref l.addr)

/-- mirrors risk/RiskInstrTop.cpp:6-14 -/
def onNew (grow : Nat → Nat) (dir : Dir) (px : ℚ) (orderRef nano : Int) (s : StoredTop) :
    StoredTop :=
  let node : TreapNode := { orderRef := toInt orderRef, price := px, dir := dir }
  let v := s.vecTreapNode.emplaceBack grow node
  let link : Linked := { addr := v.back, node := node }
  let s := { s with vecTreapNode := v }
  let s := if dir = .buy then { s with bidTreap := s.bidTreap ++ [link] }
    else { s with askTreap := s.askTreap ++ [link] }
  { s with toRiskInstr := s.toRiskInstr.onNew nano }

/-- mirrors risk/RiskInstrTop.cpp:16-23 -/
def onCxl (t : OrderTrack) (s : StoredTop) : StoredTop :=
  if t.dir = .buy then { s with bidTreap := erase s.vecTreapNode (toInt t.orderRef) s.bidTreap }
  else { s with askTreap := erase s.vecTreapNode (toInt t.orderRef) s.askTreap }

/-- mirrors risk/RiskInstrTop.cpp:25-34 -/
def onTrd (t : OrderTrack) (s : StoredTop) : StoredTop :=
  if t.volTraded = t.vol then
    if t.dir = .buy then { s with bidTreap := erase s.vecTreapNode (toInt t.orderRef) s.bidTreap }
    else { s with askTreap := erase s.vecTreapNode (toInt t.orderRef) s.askTreap }
  else s

/-- mirrors risk/RiskInstrTop.cpp:59-63 -/
def onSwitchDay (s : StoredTop) : StoredTop :=
  { s with bidTreap := [], askTreap := [], vecTreapNode := s.vecTreapNode.clear }

/-- mirrors risk/RiskInstrTop.cpp:39-57 -/
def check (ab : AccBase) (dir : Dir) (off : Off) (px : ℚ) (vol nano : Int) (s : StoredTop) : Int :=
  if dir = .buy then
    match top s.vecTreapNode s.askTreap with
    | some n => if px ≥ n.price then -230 else s.toRiskInstr.check ab dir off vol nano
    | none => s.toRiskInstr.check ab dir off vol nano
  else
    match top s.vecTreapNode s.bidTreap with
    | some n => if px ≤ n.price then -231 else s.toRiskInstr.check ab dir off vol nano
    | none => s.toRiskInstr.check ab dir off vol nano

def next (grow : Nat → Nat) (s : StoredTop) : TopEvent → StoredTop
  | .onNew dir px orderRef nano => s.onNew grow dir px orderRef nano
  | .onCxl t => s.onCxl t
  | .onTrd t => s.onTrd t
  | .onSwitchDay => s.onSwitchDay

/-- The constructor, and `init`'s limits. -/
def new (r : RiskInstr) : StoredTop := { toRiskInstr := r }

def exec (grow : Nat → Nat) (s : StoredTop) (es : List TopEvent) : StoredTop :=
  es.foldl (next grow) s

/-- What both treaps link. -/
def links (s : StoredTop) : List Linked := s.bidTreap ++ s.askTreap

/-- Every linked address has behind it the node inserted there. -/
def LinksValid (s : StoredTop) : Prop :=
  ∀ l ∈ s.links, s.vecTreapNode.deref l.addr = some l.node

/-- An order comes in while the vector is full and an order is linked. -/
def Strands (s : StoredTop) : TopEvent → Prop
  | .onNew .. => s.vecTreapNode.Full ∧ s.links ≠ []
  | _ => False

/-! ## One call -/

variable {grow : Nat → Nat} {s : StoredTop}

theorem vec_onNew (dir : Dir) (px : ℚ) (orderRef nano : Int) :
    (s.onNew grow dir px orderRef nano).vecTreapNode =
      s.vecTreapNode.emplaceBack grow { orderRef := toInt orderRef, price := px, dir := dir } := by
  unfold onNew
  split <;> rfl

/-- The new node is linked beside those linked before. -/
theorem mem_links_onNew {dir : Dir} {px : ℚ} {orderRef nano : Int} {l : Linked} :
    l ∈ (s.onNew grow dir px orderRef nano).links ↔
      l ∈ s.links ∨
        l = ⟨(s.onNew grow dir px orderRef nano).vecTreapNode.back,
          { orderRef := toInt orderRef, price := px, dir := dir }⟩ := by
  rw [vec_onNew]
  unfold onNew links
  split <;> simp only [List.mem_append, List.mem_singleton] <;> tauto

theorem mem_of_mem_erase {v : GrowVec TreapNode} {orderRef : Int} {t : List Linked} {l : Linked}
    (h : l ∈ erase v orderRef t) : l ∈ t := List.mem_of_mem_filter h

theorem links_onCxl {t : OrderTrack} {l : Linked} (h : l ∈ (s.onCxl t).links) : l ∈ s.links := by
  unfold onCxl links at h
  simp only [links, List.mem_append]
  split at h
  · exact (List.mem_append.mp h).imp_left mem_of_mem_erase
  · exact (List.mem_append.mp h).imp_right mem_of_mem_erase

theorem vec_onCxl (t : OrderTrack) : (s.onCxl t).vecTreapNode = s.vecTreapNode := by
  unfold onCxl
  split <;> rfl

/-- A fill that completes its order does what a cancel does, any other nothing. -/
theorem onTrd_eq (t : OrderTrack) : s.onTrd t = if t.volTraded = t.vol then s.onCxl t else s := rfl

/-- A call keeps the links good unless it strands them. -/
theorem linksValid_next (hs : s.LinksValid) (e : TopEvent) :
    (s.next grow e).LinksValid ↔ ¬s.Strands e := by
  have hcxl : ∀ t, (s.onCxl t).LinksValid := by
    intro t l hl
    rw [vec_onCxl]
    exact hs l (links_onCxl hl)
  cases e with
  | onNew dir px orderRef nano =>
    simp only [next, Strands, not_and_or, not_not]
    constructor
    · intro h
      by_contra hno
      push Not at hno
      obtain ⟨hfull, hne⟩ := hno
      obtain ⟨l, hl⟩ := List.exists_mem_of_ne_nil _ hne
      have hnew := h l (mem_links_onNew.mpr (Or.inl hl))
      rw [vec_onNew, GrowVec.deref_emplaceBack_of_full hfull (hs l hl)] at hnew
      cases hnew
    · intro h l hl
      rw [vec_onNew]
      rcases mem_links_onNew.mp hl with hl | rfl
      · rcases h with hroom | hnil
        · exact GrowVec.deref_emplaceBack_of_not_full hroom (hs l hl)
        · rw [hnil] at hl
          cases hl
      · rw [vec_onNew]
        exact GrowVec.deref_emplaceBack_back
  | onCxl t => simpa only [next, Strands, not_false_eq_true, iff_true] using hcxl t
  | onTrd t =>
    simp only [next, Strands, not_false_eq_true, iff_true]
    rw [onTrd_eq]
    split
    · exact hcxl t
    · exact hs
  | onSwitchDay =>
    simp only [next, Strands, not_false_eq_true, iff_true]
    intro l hl
    cases hl

/-! ## Runs -/

theorem linksValid_new (r : RiskInstr) : (new r).LinksValid := fun _ hl => by cases hl

theorem exec_concat (es : List TopEvent) (e : TopEvent) :
    s.exec grow (es ++ [e]) = (s.exec grow es).next grow e := by
  unfold exec
  rw [List.foldl_append]
  rfl

/-- **Valid nodes.** The linked nodes stay elements of the current storage, as
they were inserted, exactly when no order comes in while the vector is full and
an order is linked. -/
theorem linksValid_iff (grow : Nat → Nat) (r : RiskInstr) (es : List TopEvent) :
    (∀ pre, pre <+: es → ((new r).exec grow pre).LinksValid) ↔
      AtEach (fun pre e => ¬((new r).exec grow pre).Strands e) es := by
  induction es using List.reverseRecOn with
  | nil =>
    refine ⟨fun _ => atEach_nil _, fun _ pre hpre => ?_⟩
    rw [List.prefix_nil.mp hpre]
    exact linksValid_new r
  | append_singleton es e ih =>
    rw [atEach_concat, ← ih]
    simp only [List.prefix_concat_iff, or_imp, forall_and, forall_eq]
    rw [and_comm]
    refine and_congr_right fun hpre => ?_
    rw [exec_concat]
    exact linksValid_next (hpre es (List.prefix_refl es)) e

/-- After `n` orders and no other call the vector has `n` nodes, all linked. -/
theorem exec_news (r : RiskInstr) (news : Nat → TopEvent)
    (hnews : ∀ i, ∃ dir px orderRef nano, news i = .onNew dir px orderRef nano) (n : Nat)
    (hn : n ≤ 1024) :
    let s := (new r).exec grow ((List.range n).map news)
    s.vecTreapNode.elems.length = n ∧ s.vecTreapNode.capacity = 1024 ∧ (0 < n → s.links ≠ []) := by
  induction n with
  | zero => exact ⟨rfl, rfl, fun h => absurd h (lt_irrefl 0)⟩
  | succ n ih =>
    obtain ⟨hlen, hcap, -⟩ := ih (by omega)
    obtain ⟨dir, px, orderRef, nano, he⟩ := hnews n
    simp only [List.range_succ, List.map_append, List.map_cons, List.map_nil, exec_concat, he, next,
      vec_onNew]
    refine ⟨by simp [hlen], ?_, fun _ => ?_⟩
    · rw [GrowVec.capacity_emplaceBack_of_not_full (by unfold GrowVec.Full; omega), hcap]
    · exact List.ne_nil_of_mem (mem_links_onNew.mpr (Or.inr rfl))

/-- The `i`-th of a row of buy orders. -/
def buyAt (i : Nat) : TopEvent := .onNew .buy 10 (i + 1) i

/-- Of 1025 orders, none of them cancelled or filled, the last one leaves the
nodes of all others behind. -/
theorem links_stranded :
    ¬∀ pre, pre <+: (List.range 1025).map buyAt → ((new {}).exec (2 * ·) pre).LinksValid := by
  intro h
  obtain ⟨hlen, hcap, hne⟩ := @exec_news (2 * ·) {} buyAt (fun i => ⟨_, _, _, _, rfl⟩) 1024
    (Nat.le_refl _)
  have hsplit : (List.range 1025).map buyAt = (List.range 1024).map buyAt ++ [buyAt 1024] := by
    rw [List.range_succ, List.map_append]
    rfl
  have hbefore := h ((List.range 1024).map buyAt) (by rw [hsplit]; exact List.prefix_append _ _)
  have hafter := h ((List.range 1025).map buyAt) (List.prefix_refl _)
  rw [hsplit, exec_concat, linksValid_next hbefore] at hafter
  exact hafter ⟨by unfold GrowVec.Full; omega, hne (by omega)⟩

/-! ## Nodes by value -/

/-- The treaps with the nodes inserted in place of their addresses. -/
def forget (s : StoredTop) : RiskInstrTop (List TreapNode) where
  toRiskInstr := s.toRiskInstr
  askTreap := s.askTreap.map (·.node)
  bidTreap := s.bidTreap.map (·.node)

end StoredTop

/-- mirrors risk/RiskInstrTop.cpp:59-63 -/
def RiskInstrTop.onSwitchDay {τ : Type} (O : Treap τ) (r : RiskInstrTop τ) : RiskInstrTop τ :=
  { r with bidTreap := O.empty, askTreap := O.empty }

/-- The calls on nodes held by value. -/
def RiskInstrTop.next {τ : Type} (O : Treap τ) (r : RiskInstrTop τ) : TopEvent → RiskInstrTop τ
  | .onNew dir px orderRef nano => r.onNew O dir px orderRef nano
  | .onCxl t => r.onCxl O t
  | .onTrd t => r.onTrd O t
  | .onSwitchDay => r.onSwitchDay O

namespace StoredTop

/-- The treaps as lists. -/
abbrev lists : Treap (List TreapNode) := listOps TreapNode.orderRef TreapNode.priorityOrder

variable {grow : Nat → Nat} {s : StoredTop}

theorem map_erase {v : GrowVec TreapNode} {t : List Linked}
    (h : ∀ l ∈ t, v.deref l.addr = some l.node) (n : TreapNode) :
    (erase v n.orderRef t).map (·.node) = lists.erase n (t.map (·.node)) := by
  unfold erase lists listOps
  simp only [List.filter_map]
  congr 1
  refine List.filter_congr fun l hl => ?_
  simp [h l hl]

theorem top_eq {v : GrowVec TreapNode} {t : List Linked}
    (h : ∀ l ∈ t, v.deref l.addr = some l.node) : top v t = lists.top (t.map (·.node)) := by
  unfold top
  congr 1
  rw [← List.filterMap_eq_map]
  exact List.filterMap_congr fun l hl => h l hl

theorem LinksValid.bid (hs : s.LinksValid) :
    ∀ l ∈ s.bidTreap, s.vecTreapNode.deref l.addr = some l.node :=
  fun l hl => hs l (List.mem_append_left _ hl)

theorem LinksValid.ask (hs : s.LinksValid) :
    ∀ l ∈ s.askTreap, s.vecTreapNode.deref l.addr = some l.node :=
  fun l hl => hs l (List.mem_append_right _ hl)

theorem forget_onCxl (hs : s.LinksValid) (t : OrderTrack) :
    (s.onCxl t).forget = s.forget.onCxl lists t := by
  unfold onCxl RiskInstrTop.onCxl
  split
  · simp only [forget]
    rw [← map_erase hs.bid]
  · simp only [forget]
    rw [← map_erase hs.ask]

/-- A call on good links is the call on the nodes themselves. -/
theorem forget_next (hs : s.LinksValid) (e : TopEvent) :
    (s.next grow e).forget = s.forget.next lists e := by
  cases e with
  | onNew dir px orderRef nano =>
    simp only [next, RiskInstrTop.next, onNew, RiskInstrTop.onNew]
    split <;> simp [forget, lists, listOps]
  | onCxl t => exact forget_onCxl hs t
  | onTrd t =>
    simp only [next, RiskInstrTop.next]
    rw [onTrd_eq]
    unfold RiskInstrTop.onTrd
    split
    · exact forget_onCxl hs t
    · rfl
  | onSwitchDay => rfl

/-- As long as no call strands a node, the treaps are those of nodes held by
value. -/
theorem forget_exec (r : RiskInstr) (es : List TopEvent)
    (h : ∀ pre, pre <+: es → ((new r).exec grow pre).LinksValid) :
    ((new r).exec grow es).forget = es.foldl (RiskInstrTop.next lists) (new r).forget := by
  induction es using List.reverseRecOn with
  | nil => rfl
  | append_singleton es e ih =>
    have hpre : ∀ pre, pre <+: es → ((new r).exec grow pre).LinksValid :=
      fun pre hp => h pre (hp.trans (List.prefix_append es [e]))
    rw [exec_concat, forget_next (hpre es (List.prefix_refl es)), ih hpre, List.foldl_append]
    rfl

/-- So are the answers of `check`. -/
theorem check_forget (hs : s.LinksValid) (ab : AccBase) (dir : Dir) (off : Off) (px : ℚ)
    (vol nano : Int) :
    s.check ab dir off px vol nano = s.forget.check lists ab dir off px vol nano := by
  unfold check RiskInstrTop.check
  rw [top_eq hs.ask, top_eq hs.bid]
  rfl

end StoredTop

end NatFramework.Risk
