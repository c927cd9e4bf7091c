import Mathlib.Data.Rat.Floor
import NatFramework.Risk.SelfTrade
import NatFramework.Td.AccountUtilis

/-!
# The risk account after a restart

A running engine calls `check` and `onNew` for each order and `onRtn` for each
return; a restarted one calls `onOrderTrack` for each track it finds. The
account comes out the same for every purpose of a check. The treaps do not: only
`onNew` fills them, so that after a restart they are empty.

* `inv_next`: what a step of the running engine keeps: the account has booked
  what the orders have done, the treaps hold the working ones.
* `sameAnswers_iff`: the restarted account answers like the running one
  unless the order would cross a working order.
-/
namespace NatFramework.Td

open Lib Account Risk AccBase Posting

/-! ## A running engine -/

/-- What a callback that writes message `m` has done to the track.
mirrors td/CTDEngineCtp.cpp:495-737 -/
def trackRtn (m : RtnMsg) (t : OrderTrack) : OrderTrack :=
  if m.msgType = ods .execution then Engine.filled m.vol m.price t
  else { t with status := t.status ||| m.msgType }

/-- The risk account of an engine, and its orders: the order of request id
`base + k` is the `k`-th. -/
structure Running (τ : Type) where
  top : RiskTop τ
  sent : List Sent

inductive RunningEvent where
  /-- A check, whatever it answers. -/
  | check (dir : Dir) (off : Off) (px : ℚ) (vol : Int) (h : Hash) (nano : Int)
  /-- A check that answers 0, and `onNew` at a later time. -/
  | insert (d : IOInputOrderField) (unit : AccountUnit) (nano nano' : Int)
  | rtn (k : Nat) (m : RtnMsg)
  deriving DecidableEq, Repr

namespace Running

variable {τ : Type} (O : Treap τ) (info : TradeBaseInfo) (base : Int)

def received (m : RtnMsg) (x : Sent) : Sent where
  track := trackRtn m x.track
  closing := if m.msgType.has .closed then some m.vol else x.closing

/-- mirrors td/CTDEngineCtp.cpp:741-812 and td/ITDEngine.h:114-117 -/
def next (s : Running τ) : RunningEvent → Running τ
  | .check dir off px vol h nano => { s with top := (s.top.check O info dir off px vol h nano).1 }
  | .insert d unit nano nano' =>
    let id := base + s.sent.length
    { top := (s.top.check O info d.dir d.off d.price d.vol d.instrHash nano).1.onNew O info d.dir d.off
        d.price d.vol d.instrHash id nano'
      sent := s.sent ++ [{ track := Engine.insertTrack d unit id {} }] }
  | .rtn k m =>
    match s.sent[k]? with
    | none => s
    | some x =>
      { top := s.top.onRtn O info (trackRtn m x.track) m
        sent := s.sent.set k (received m x) }

/-- Orders have passed their check and an id that is an `int`; returns are fills
within the order's volume, one closing return, and any others. -/
def Ok (s : Running τ) : RunningEvent → Prop
  | .check .. => True
  | .insert d _ nano _ => 1 ≤ d.vol ∧
      (-2 ^ 31 ≤ base + s.sent.length ∧ base + s.sent.length < 2 ^ 31) ∧
      (s.top.check O info d.dir d.off d.price d.vol d.instrHash nano).2 = some 0
  | .rtn k m => ∃ x, s.sent[k]? = some x ∧ x.Accepts m

/-- Runs from a risk account as a start without tracks leaves it. -/
def sys (s0 : RiskTop τ) : Lib.Sys (Running τ) RunningEvent where
  start s := s.top = s0 ∧ s.sent = []
  ok := Ok O info base
  next := next O info base

end Running

/-! ## What a return does to an order -/

/-- A callback changes the track as the strategy's side does, but for the
references, which the message repeats. -/
def echo (t : OrderTrack) (m : RtnMsg) : RtnMsg :=
  { m with orderRef := t.orderRef, frontId := t.frontId, sessionId := t.sessionId }

theorem received_eq (m : RtnMsg) (x : Sent) : Running.received m x = x.returned (echo x.track m) := by
  unfold Running.received Sent.returned
  congr 1
  unfold trackRtn ITDHelper.getRtn echo Engine.filled
  dsimp only
  by_cases he : m.msgType = ods .execution
  · simp only [he, if_true, mul_comm (m.vol : ℚ)]
  · rw [if_neg he, if_neg (Ne.symm he)]

theorem Sent.accepts_echo {m : RtnMsg} {x : Sent} (h : x.Accepts m) (t : OrderTrack) :
    x.Accepts (echo t m) := ⟨h.types, h.fill, h.close⟩

namespace Running

variable {τ : Type} {O : Treap τ} {info : TradeBaseInfo} {base : Int} {s0 : RiskTop τ} {a0 : AccBase}

/-! ## The account and the records -/

/-- Every known instrument has a record, with the settings it has in `s0`. -/
def Configured (info : TradeBaseInfo) (s0 s : RiskTop τ) : Prop :=
  ∀ h i, info.find h = some i → ∃ r r0, s.mapRiskInstr.lookup h = some r ∧
    s0.mapRiskInstr.lookup h = some r0 ∧ r.toRiskInstr.settings = r0.toRiskInstr.settings

/-- What the events leave of the records `s0` has, and what they book. -/
structure Inv (info : TradeBaseInfo) (a0 : AccBase) (s0 : RiskTop τ) (s : Running τ) : Prop where
  booked : Booked info a0 (regPostings info ++ s.sent.map (Helper.posting info)) s.top.accBase
  instrGen : s.top.accBase.mapInstr.gen = s0.accBase.mapInstr.gen
  prdGen : s.top.accBase.mapPrd.gen = s0.accBase.mapPrd.gen
  prd : s.top.mapRiskPrd = s0.mapRiskPrd
  acc : s.top.riskAcc = s0.riskAcc
  instr : Configured info s0 s.top
  sound : ∀ x ∈ s.sent, x.Sound ∧ x.track.status.has .tdSend

/-- A check finds every record there is. -/
theorem fst_check_of_registered {s : RiskTop τ}
    (hr : ∀ h i, info.find h = some i → ∃ r, s.mapRiskInstr.lookup h = some r) (dir : Dir) (off : Off)
    (px : ℚ) (vol : Int) (h : Hash) (nano : Int) :
    (s.check O info dir off px vol h nano).1 = s := by
  rw [RiskTop.fst_check]
  rcases hi : info.find h with _ | i
  · rfl
  · obtain ⟨r, hl⟩ := hr h i hi
    rw [← TradeBaseInfo.instrHash_eq hi] at hl
    dsimp only
    rw [RiskTop.findOrReg_of_present hl]

theorem Inv.fst_check {s : Running τ} (hs : Inv info a0 s0 s) (dir : Dir) (off : Off) (px : ℚ)
    (vol : Int) (h : Hash) (nano : Int) :
    (s.top.check O info dir off px vol h nano).1 = s.top := by
  refine fst_check_of_registered (fun h i hi => ?_) dir off px vol h nano
  obtain ⟨r, -, hl, -⟩ := hs.instr h i hi
  exact ⟨r, hl⟩

/-- Writing a record without touching its settings. -/
theorem Configured.modify {s : RiskTop τ} (hs : Configured info s0 s)
    {f : RiskInstrTop τ → RiskInstrTop τ}
    (hf : ∀ r, (f r).toRiskInstr.settings = r.toRiskInstr.settings) (h' : Hash) :
    Configured info s0 (s.modifyRiskInstr O h' f) := by
  intro h i hi
  obtain ⟨r, r0, hr, hr0, heq⟩ := hs h i hi
  simp only [RiskTop.modifyRiskInstr, UMap.lookup_insert_ite]
  by_cases hh : h = h'
  · subst hh
    refine ⟨f r, r0, ?_, hr0, (hf r).trans heq⟩
    rw [if_pos rfl, RiskTop.riskInstrAt, hr]
    rfl
  · exact ⟨r, r0, by rw [if_neg hh]; exact hr, hr0, heq⟩

theorem settings_onNew (dir : Dir) (px : ℚ) (orderRef nano : Int) (r : RiskInstrTop τ) :
    (r.onNew O dir px orderRef nano).toRiskInstr.settings = r.toRiskInstr.settings := by
  have hr : ∀ q : RiskInstr, (q.onNew nano).settings = q.settings := by
    intro q
    unfold RiskInstr.onNew
    dsimp only
    split <;> rfl
  unfold RiskInstrTop.onNew
  dsimp only
  rw [hr]
  split <;> rfl

theorem settings_onCxl (t : OrderTrack) (r : RiskInstrTop τ) :
    (r.onCxl O t).toRiskInstr.settings = r.toRiskInstr.settings := by
  unfold RiskInstrTop.onCxl
  dsimp only
  split <;> rfl

theorem settings_onTrd (t : OrderTrack) (r : RiskInstrTop τ) :
    (r.onTrd O t).toRiskInstr.settings = r.toRiskInstr.settings := by
  unfold RiskInstrTop.onTrd
  dsimp only
  split
  · split <;> rfl
  · rfl

theorem posting_insert (d : IOInputOrderField) (unit : AccountUnit) (id : Int) :
    Helper.posting info { track := Engine.insertTrack d unit id {} } =
      (d.instrHash, (info.find d.instrHash).elim 0
        fun i => .new i.volMultiple d.dir d.off d.price d.vol) := by
  have he : ∀ vm, Sent.effect vm { track := Engine.insertTrack d unit id {} } =
      .new vm d.dir d.off d.price d.vol := by
    intro vm
    simp [Sent.effect, Engine.insertTrack, show Status.has (ods .tdSend) .execution = false by decide]
  simp only [Helper.posting, he]
  rfl

theorem sound_insert {d : IOInputOrderField} (hv : 1 ≤ d.vol) (unit : AccountUnit) (id : Int) :
    Sent.Sound { track := Engine.insertTrack d unit id {} } := by
  have hne : (0 : Int) ≠ d.vol := by omega
  refine ⟨hv, ?_, fun h => ?_, fun _ => ⟨rfl, rfl⟩, ?_⟩
  · exact show (0 : Int) ≤ d.vol by omega
  · exact absurd h (show ¬ Status.has (ods .tdSend) .execution = true by decide)
  · simp only [Engine.insertTrack, show Status.has (ods .tdSend) .closed = false by decide, hne]
    simp

theorem inv_insert (hv : info.VolMultiplesOk) {s : Running τ} (hs : Inv info a0 s0 s)
    {d : IOInputOrderField} (hd : 1 ≤ d.vol) (unit : AccountUnit) (nano nano' : Int) :
    Inv info a0 s0 (next O info base s (.insert d unit nano nano')) := by
  have haddr := fun k => hs.booked.linked.onInstr_addr hv d.instrHash k
    fun b => b.onNew d.dir d.off d.price d.vol
  simp only [next, hs.fst_check]
  refine ⟨?_, ?_, ?_, hs.prd, hs.acc, ?_, ?_⟩
  · have hb := hs.booked.onInstr hv d.instrHash (.new · d.dir d.off d.price d.vol)
      fun vm => does_onNew vm d.dir d.off d.price d.vol
    rw [← posting_insert d unit (base + s.sent.length), List.append_assoc] at hb
    rw [List.map_append, List.map_cons, List.map_nil]
    exact hb
  · exact (funext fun k => (Ptr.mk.inj (haddr k).1).2).trans hs.instrGen
  · exact (funext fun k => (Ptr.mk.inj (haddr k).2).2).trans hs.prdGen
  · exact Configured.modify (s := { s.top with accBase := _ }) hs.instr (settings_onNew _ _ _ _) _
  · intro x hx
    rw [List.mem_append, List.mem_singleton] at hx
    rcases hx with hx | rfl
    · exact hs.sound x hx
    · exact ⟨sound_insert hd unit _, show Status.has (ods .tdSend) .tdSend = true by decide⟩

/-- The layers of `onRtn` that have no part in the treaps. -/
theorem onRtn_layers (O : Treap τ) (info : TradeBaseInfo) (s : RiskTop τ) (t : OrderTrack) (m : RtnMsg) :
    (s.onRtn O info t m).accBase = s.accBase.onRtn info t m ∧
      (s.onRtn O info t m).mapRiskPrd = s.mapRiskPrd ∧
      (s.onRtn O info t m).riskAcc = s.riskAcc := by
  unfold RiskTop.onRtn
  dsimp only
  split
  · split <;> exact ⟨rfl, rfl, rfl⟩
  · split <;> exact ⟨rfl, rfl, rfl⟩

theorem Configured.onRtn {s : RiskTop τ} (hs : Configured info s0 s) (t : OrderTrack) (m : RtnMsg) :
    Configured info s0 (s.onRtn O info t m) := by
  have hacc : Configured info s0 { s with accBase := s.accBase.onRtn info t m } := hs
  unfold RiskTop.onRtn
  dsimp only
  split
  · split
    · exact (hacc.modify (settings_onCxl t) t.instrHash).modify (settings_onTrd t) t.instrHash
    · exact hacc.modify (settings_onTrd t) t.instrHash
  · split
    · exact hacc.modify (settings_onCxl t) t.instrHash
    · exact hacc

theorem trackRtn_fields (m : RtnMsg) (t : OrderTrack) :
    (trackRtn m t).instrHash = t.instrHash ∧ (trackRtn m t).dir = t.dir ∧
      (trackRtn m t).price = t.price ∧ (trackRtn m t).orderRef = t.orderRef ∧
      (trackRtn m t).vol = t.vol := by
  unfold trackRtn Engine.filled
  dsimp only
  split
  · split <;> exact ⟨rfl, rfl, rfl, rfl, rfl⟩
  · exact ⟨rfl, rfl, rfl, rfl, rfl⟩

theorem posting_received {m : RtnMsg} {x : Sent} (hx : x.Sound) (hm : x.Accepts m) :
    Helper.posting info (received m x) = ((Helper.posting info x).1, (Helper.posting info x).2 +
      (info.find x.track.instrHash).elim 0
        fun i => rtnEffect i.volMultiple (received m x).track m) := by
  have hh : (received m x).track.instrHash = x.track.instrHash := (trackRtn_fields m x.track).1
  have heff : ∀ vm, (received m x).effect vm = x.effect vm + rtnEffect vm (received m x).track m := by
    intro vm
    rw [received_eq]
    exact Sent.effect_returned vm hx (Sent.accepts_echo hm x.track)
  unfold Helper.posting
  rw [hh]
  simp only [heff]
  cases info.find x.track.instrHash <;> simp

theorem inv_rtn (hv : info.VolMultiplesOk) {s : Running τ} (hs : Inv info a0 s0 s) {k : Nat}
    {m : RtnMsg} (he : Ok O info base s (.rtn k m)) :
    Inv info a0 s0 (next O info base s (.rtn k m)) := by
  obtain ⟨x, hx, hacc⟩ := he
  obtain ⟨l1, l2, hl, hset⟩ := Helper.exists_split (y := received m x)
    (show trackAt s.sent k = some x by simpa [trackAt] using hx)
  rw [Int.toNat_natCast] at hset
  obtain ⟨hxs, hxt⟩ := hs.sound x (List.mem_of_getElem? hx)
  obtain ⟨hab, hprd, hra⟩ := onRtn_layers O info s.top (trackRtn m x.track) m
  have hh : (trackRtn m x.track).instrHash = x.track.instrHash := (trackRtn_fields m x.track).1
  have haddr := fun k => hs.booked.linked.onInstr_addr hv (trackRtn m x.track).instrHash k
    (rtnBooks (trackRtn m x.track) m)
  simp only [next, hx]
  refine ⟨?_, ?_, ?_, hprd.trans hs.prd, hra.trans hs.acc, hs.instr.onRtn _ _, ?_⟩
  · have hb := hs.booked.onInstr hv (trackRtn m x.track).instrHash (rtnEffect · (trackRtn m x.track) m)
      fun vm => does_rtn vm (trackRtn m x.track) m
    rw [hab]
    refine hb.equiv ?_
    rw [hset, hl, List.map_append, List.map_append, List.map_cons, List.map_cons,
      posting_received hxs hacc, hh, ← List.append_assoc, ← List.append_assoc]
    exact Equiv.amend _ _ _ _ _
  · rw [hab]
    exact (funext fun k => (Ptr.mk.inj (haddr k).1).2).trans hs.instrGen
  · rw [hab]
    exact (funext fun k => (Ptr.mk.inj (haddr k).2).2).trans hs.prdGen
  · intro y hy
    rcases List.mem_or_eq_of_mem_set hy with hy | rfl
    · exact hs.sound y hy
    · rw [received_eq]
      exact ⟨Sent.sound_returned hxs (Sent.accepts_echo hacc x.track).fits, Sent.has_returned hxt⟩

/-! ## The treaps -/

/-- An order of a side of `h` that is working in the market. -/
def WorkingOn (h : Hash) (buy : Bool) (x : Sent) : Prop :=
  x.track.instrHash = h ∧ decide (x.track.dir = .buy) = buy ∧ ¬ x.track.status.has .closed

def nodeOf (t : OrderTrack) : TreapNode where
  orderRef := toInt t.orderRef
  price := t.price
  dir := t.dir

/-- The treaps hold the working orders, whose references fit an `int`. -/
structure Books (O : Treap τ) (base : Int) (s : Running τ) : Prop where
  side : ∀ h buy n, O.mem n (RiskTop.side O h buy s.top) ↔
    ∃ (k : Nat) (x : Sent), s.sent[k]? = some x ∧ WorkingOn h buy x ∧ n = nodeOf x.track
  ref : ∀ (k : Nat) (x : Sent), s.sent[k]? = some x →
    x.track.orderRef = base + k ∧ -2 ^ 31 ≤ base + k ∧ base + k < 2 ^ 31

/-- Two orders with the same node key are the same order. -/
theorem Books.key_inj {s : Running τ} (hs : Books O base s) {j k : Nat} {x y : Sent}
    (hx : s.sent[j]? = some x) (hy : s.sent[k]? = some y)
    (h : toInt x.track.orderRef = toInt y.track.orderRef) : j = k := by
  obtain ⟨hxr, hxf⟩ := hs.ref j x hx
  obtain ⟨hyr, hyf⟩ := hs.ref k y hy
  rw [hxr, hyr, toInt_of_fits hxf, toInt_of_fits hyf] at h
  omega

theorem side_modify_of_ne {s : RiskTop τ} {h h' : Hash} (hne : h' ≠ h)
    (f : RiskInstrTop τ → RiskInstrTop τ) (buy : Bool) :
    RiskTop.side O h buy (s.modifyRiskInstr O h' f) = RiskTop.side O h buy s := by
  unfold RiskTop.side RiskTop.riskInstrAt RiskTop.modifyRiskInstr
  simp only [UMap.lookup_insert_ite, if_neg (Ne.symm hne)]

theorem side_onRtn_of_ne {s : RiskTop τ} {h : Hash} {t : OrderTrack} (hne : t.instrHash ≠ h)
    (m : RtnMsg) (buy : Bool) :
    RiskTop.side O h buy (s.onRtn O info t m) = RiskTop.side O h buy s := by
  have hacc : RiskTop.side O h buy { s with accBase := s.accBase.onRtn info t m } =
      RiskTop.side O h buy s := rfl
  unfold RiskTop.onRtn
  dsimp only
  split
  · split
    · rw [side_modify_of_ne hne, side_modify_of_ne hne, hacc]
    · rw [side_modify_of_ne hne, hacc]
  · split
    · rw [side_modify_of_ne hne, hacc]
    · exact hacc

/-- A return takes an order out of the working ones exactly when it takes its node
out of its treap. -/
theorem closed_received {m : RtnMsg} {x : Sent} (hx : x.Sound) (hm : x.Accepts m) :
    ¬ (received m x).track.status.has .closed ↔
      ¬ x.track.status.has .closed ∧ ¬ RiskTop.Leaves (trackRtn m x.track) m := by
  have hy : (received m x).Sound := by
    rw [received_eq]
    exact Sent.sound_returned hx (Sent.accepts_echo hm x.track).fits
  have hcxl : m.msgType.has .canceled = m.msgType.has .closed := Status.has_canceled hm.types
  have hvol : (received m x).track.vol = x.track.vol := (trackRtn_fields m x.track).2.2.2.2
  rw [hy.closed, hx.closed, hvol]
  unfold RiskTop.Leaves
  rw [hcxl, show trackRtn m x.track = (received m x).track from rfl, hvol]
  by_cases he : m.msgType.has .execution
  · obtain ⟨hty, hpos, hle⟩ := hm.fill he
    have hnc : m.msgType.has .closed = false := by rw [hty]; decide
    have hlt : x.track.volTraded ≠ x.track.vol := by omega
    simp [received, hnc, he, hlt]
  · have htr : (received m x).track.volTraded = x.track.volTraded := by
      have hne : m.msgType ≠ ods .execution := by
        intro h
        rw [h] at he
        exact he (by decide)
      simp [received, trackRtn, hne]
    rw [htr]
    by_cases hc : m.msgType.has .closed <;> simp [received, hc, he]

theorem workingOn_received {m : RtnMsg} {x : Sent} (hx : x.Sound) (hm : x.Accepts m) (h : Hash)
    (buy : Bool) : WorkingOn h buy (received m x) ↔
      WorkingOn h buy x ∧ ¬ RiskTop.Leaves (trackRtn m x.track) m := by
  obtain ⟨hh, hdir, -⟩ := trackRtn_fields m x.track
  unfold WorkingOn
  rw [closed_received hx hm, show (received m x).track.instrHash = x.track.instrHash from hh,
    show (received m x).track.dir = x.track.dir from hdir]
  tauto

theorem nodeOf_trackRtn (m : RtnMsg) (t : OrderTrack) : nodeOf (trackRtn m t) = nodeOf t := by
  obtain ⟨-, hdir, hprice, href, -⟩ := trackRtn_fields m t
  unfold nodeOf
  rw [hdir, hprice, href]

theorem mem_side_rtn (hO : O.Lawful) {s : RiskTop τ} {t : OrderTrack} {m : RtnMsg} (h : Hash)
    (buy : Bool) (n : TreapNode) : O.mem n (RiskTop.side O h buy (s.onRtn O info t m)) ↔
      O.mem n (RiskTop.side O h buy s) ∧ ¬ (t.instrHash = h ∧ buy = decide (t.dir = .buy) ∧
        RiskTop.Leaves t m ∧ n.orderRef = toInt t.orderRef) := by
  by_cases ht : t.instrHash = h
  · rw [RiskTop.mem_side_onRtn hO ht]
    simp only [ht, true_and]
  · rw [side_onRtn_of_ne ht]
    simp only [ht, false_and, not_false_eq_true, and_true]

theorem books_rtn (hO : O.Lawful) {s : Running τ} (hb : Books O base s)
    (hsound : ∀ x ∈ s.sent, x.Sound) {k : Nat} {m : RtnMsg} (he : Ok O info base s (.rtn k m)) :
    Books O base (next O info base s (.rtn k m)) := by
  obtain ⟨x, hx, hacc⟩ := he
  have hxs := hsound x (List.mem_of_getElem? hx)
  have hset : ∀ j : Nat, (s.sent.set k (received m x))[j]? =
      if k = j then some (received m x) else s.sent[j]? := by
    intro j
    have hlt : k < s.sent.length := (List.getElem?_eq_some_iff.mp hx).choose
    rw [List.getElem?_set, if_pos hlt]
  simp only [next, hx]
  refine ⟨fun h buy n => ?_, fun j y hy => ?_⟩
  · dsimp only
    simp only [hset]
    rw [mem_side_rtn hO, hb.side]
    constructor
    · rintro ⟨⟨j, y, hy, hwork, rfl⟩, hno⟩
      by_cases hkj : k = j
      · subst hkj
        rw [hx] at hy
        cases hy
        refine ⟨k, received m x, if_pos rfl, (workingOn_received hxs hacc h buy).mpr ⟨hwork, ?_⟩,
          (nodeOf_trackRtn m x.track).symm⟩
        intro hleave
        obtain ⟨hh, hdir, -, href, -⟩ := trackRtn_fields m x.track
        refine hno ⟨hh.trans hwork.1, ?_, hleave, ?_⟩
        · rw [hdir]
          exact hwork.2.1.symm
        · rw [href]
          rfl
      · exact ⟨j, y, by rw [if_neg hkj]; exact hy, hwork, rfl⟩
    · rintro ⟨j, y, hy, hwork, rfl⟩
      by_cases hkj : k = j
      · subst hkj
        rw [if_pos rfl] at hy
        cases hy
        obtain ⟨hworkx, hstay⟩ := (workingOn_received hxs hacc h buy).mp hwork
        exact ⟨⟨k, x, hx, hworkx, nodeOf_trackRtn m x.track⟩, fun hno => hstay hno.2.2.1⟩
      · rw [if_neg hkj] at hy
        refine ⟨⟨j, y, hy, hwork, rfl⟩, fun hno => hkj ?_⟩
        have href : (trackRtn m x.track).orderRef = x.track.orderRef :=
          (trackRtn_fields m x.track).2.2.2.1
        rw [href] at hno
        exact (hb.key_inj hy hx hno.2.2.2).symm
  · dsimp only at hy
    rw [hset] at hy
    split at hy
    · rename_i hkj
      subst hkj
      cases hy
      have href : (trackRtn m x.track).orderRef = x.track.orderRef :=
        (trackRtn_fields m x.track).2.2.2.1
      rw [show (received m x).track = trackRtn m x.track from rfl, href]
      exact hb.ref k x hx
    · exact hb.ref j y hy

theorem mem_side_new (hO : O.Lawful) {s : RiskTop τ} (d : IOInputOrderField) (id nano : Int)
    (h : Hash) (buy : Bool) (hkey : ∀ n, O.mem n (RiskTop.side O h buy s) → n.orderRef ≤ toInt id)
    (n : TreapNode) :
    O.mem n (RiskTop.side O h buy (s.onNew O info d.dir d.off d.price d.vol d.instrHash id nano)) ↔
      O.mem n (RiskTop.side O h buy s) ∨ d.instrHash = h ∧ decide (d.dir = .buy) = buy ∧
        n = { orderRef := toInt id, price := d.price, dir := d.dir } := by
  by_cases hh : d.instrHash = h
  · subst hh
    have hside : RiskTop.side O d.instrHash buy
        (s.onNew O info d.dir d.off d.price d.vol d.instrHash id nano) =
          if buy = decide (d.dir = .buy) then
            O.pushBack (RiskTop.node id ⟨d.instrHash, d.dir, d.off, d.price, d.vol⟩)
              (RiskTop.side O d.instrHash buy s)
          else RiskTop.side O d.instrHash buy s :=
      RiskTop.side_onNew (o := ⟨d.instrHash, d.dir, d.off, d.price, d.vol⟩) buy
    rw [hside]
    by_cases hb : buy = decide (d.dir = .buy)
    · rw [if_pos hb, hO.mem_pushBack _ _ hkey]
      simp only [hb, true_and, RiskTop.node]
      exact or_comm
    · rw [if_neg hb]
      simp only [Ne.symm hb, false_and, and_false, or_false]
  · have hside : RiskTop.side O h buy
        (s.onNew O info d.dir d.off d.price d.vol d.instrHash id nano) = RiskTop.side O h buy s := by
      unfold RiskTop.onNew
      rw [side_modify_of_ne hh]
      rfl
    rw [hside]
    simp only [hh, false_and, or_false]

theorem books_insert (hO : O.Lawful) {s : Running τ} (hb : Books O base s)
    {d : IOInputOrderField} {unit : AccountUnit} {nano nano' : Int}
    (he : Ok O info base s (.insert d unit nano nano')) :
    Books O base (next O info base s (.insert d unit nano nano')) := by
  obtain ⟨-, hfit, -⟩ := he
  have hside : ∀ h buy, RiskTop.side O h buy
      (s.top.check O info d.dir d.off d.price d.vol d.instrHash nano).1 = RiskTop.side O h buy s.top :=
    fun h buy => RiskTop.side_check d.dir d.off d.price d.vol nano d.instrHash buy
  -- the nodes of a treap are those of earlier orders
  have hkey : ∀ h buy n, O.mem n (RiskTop.side O h buy s.top) →
      n.orderRef ≤ toInt (base + s.sent.length) := by
    intro h buy n hn
    obtain ⟨k, x, hx, -, rfl⟩ := (hb.side h buy n).mp hn
    obtain ⟨href, hkfit⟩ := hb.ref k x hx
    have hlt : k < s.sent.length := (List.getElem?_eq_some_iff.mp hx).choose
    change toInt x.track.orderRef ≤ _
    rw [href, toInt_of_fits hkfit, toInt_of_fits hfit]
    omega
  have hnew : ∀ (k : Nat) (x : Sent),
      (s.sent ++ [{ track := Engine.insertTrack d unit (base + s.sent.length) {} }])[k]? = some x ↔
        s.sent[k]? = some x ∨ k = s.sent.length ∧
          x = { track := Engine.insertTrack d unit (base + s.sent.length) {} } := by
    intro k x
    rcases lt_trichotomy k s.sent.length with hlt | rfl | hgt
    · rw [List.getElem?_append_left hlt]
      simp only [hlt.ne, false_and, or_false]
    · rw [List.getElem?_concat_length, List.getElem?_eq_none_iff.mpr le_rfl]
      simp only [Option.some.injEq, reduceCtorEq, true_and, false_or]
      exact eq_comm
    · rw [List.getElem?_eq_none_iff.mpr (by simp; omega), List.getElem?_eq_none_iff.mpr hgt.le]
      simp only [reduceCtorEq, hgt.ne', false_and, or_false]
  refine ⟨fun h buy n => ?_, fun k x hx => ?_⟩
  · have hopen : ¬ Status.has (ods .tdSend) .closed = true := by decide
    simp only [next]
    rw [mem_side_new hO d _ _ h buy (by rw [hside]; exact hkey h buy), hside, hb.side]
    simp only [hnew]
    constructor
    · rintro (⟨k, x, hx, hwork, rfl⟩ | ⟨hh, hdir, rfl⟩)
      · exact ⟨k, x, Or.inl hx, hwork, rfl⟩
      · exact ⟨_, _, Or.inr ⟨rfl, rfl⟩, ⟨hh, hdir, hopen⟩, rfl⟩
    · rintro ⟨k, x, hx | ⟨rfl, rfl⟩, hwork, rfl⟩
      · exact Or.inl ⟨k, x, hx, hwork, rfl⟩
      · exact Or.inr ⟨hwork.1, hwork.2.1, rfl⟩
  · rcases (hnew k x).mp hx with hx | ⟨rfl, rfl⟩
    · exact hb.ref k x hx
    · exact ⟨rfl, hfit⟩

/-! ## The start -/

/-- Step 2.5 leaves a record of every instrument it is given, and no treap filled. -/
theorem foldlM_regListed_records (es : List (Sigma fun _ : Hash => InstrumentInfo))
    (hes : ∀ e ∈ es, info.find e.1 = some e.2) {s s' : RiskTop τ}
    (hs : es.foldlM (fun s kv => regListed O info kv s) s = some s') :
    (∀ h buy, RiskTop.side O h buy s' = RiskTop.side O h buy s) ∧
      ∀ h, (s.mapRiskInstr.lookup h).isSome = true ∨ (∃ e ∈ es, e.1 = h) →
        (s'.mapRiskInstr.lookup h).isSome = true := by
  induction es generalizing s with
  | nil =>
    cases hs
    exact ⟨fun _ _ => rfl, fun h hh => hh.elim id (by simp)⟩
  | cons e es ih =>
    have hi := hes e List.mem_cons_self
    simp only [List.foldlM_cons, Option.bind_eq_bind, Option.bind_eq_some_iff] at hs
    obtain ⟨s1, hs1, hs'⟩ := hs
    have hreg : s.regInstr O info e.2.instr = (s1, some true) := by
      unfold regListed at hs1
      split at hs1
      · rename_i heq
        rw [heq, Option.some.inj hs1]
      · cases hs1
    obtain ⟨hside, hrec⟩ := ih (fun e' he' => hes e' (List.mem_cons_of_mem e he')) hs'
    refine ⟨fun h buy => ?_, fun h hh => hrec h ?_⟩
    · have h1 := RiskTop.side_regInstr O info s h e.2.instr buy
      rw [hreg] at h1
      exact (hside h buy).trans h1
    · rcases hh with hx | ⟨e', he', rfl⟩
      · left
        have h1 := RiskTop.isSome_regInstr (O := O) hi hx
        rw [hreg] at h1
        exact h1
      · rcases List.mem_cons.mp he' with rfl | he'
        · left
          have h1 := RiskTop.isExist_regInstr hreg
          rwa [TradeBaseInfo.nameHash_instr hi] at h1
        · exact Or.inr ⟨e', he', rfl⟩

variable {conf : RiskConf}

theorem accBase_start (hv : info.VolMultiplesOk) (hl : Linked info a0)
    (h0 : initAccount O info conf (some a0) [] = some s0) : s0.accBase = rebuilt info [] a0 := by
  have h := initAccount_eq (O := O) hv conf hl []
  rw [h0, Option.map_some, Option.some.injEq] at h
  exact congrArg RiskTop.accBase h

theorem records_start (h0 : initAccount O info conf (some a0) [] = some s0) :
    (∀ h buy, RiskTop.side O h buy s0 = O.empty) ∧
      ∀ h i, info.find h = some i → (s0.mapRiskInstr.lookup h).isSome = true := by
  unfold initAccount at h0
  rcases hacc : RiskAcc.init conf {} with ⟨riskAcc, _ | _ | _⟩ <;> rw [hacc] at h0
  · cases h0
  · cases h0
  · obtain ⟨hside, hrec⟩ := foldlM_regListed_records _ find_of_mem_entries h0
    refine ⟨fun h buy => ?_, fun h i hi => hrec h (Or.inr ⟨⟨h, i⟩, AList.mem_lookup_iff.mp hi, rfl⟩)⟩
    rw [hside]
    cases buy <;> rfl

theorem inv_start (hv : info.VolMultiplesOk) (hl : Linked info a0)
    (h0 : initAccount O info conf (some a0) [] = some s0) {s : Running τ}
    (hs : (sys O info base s0).start s) : Inv info a0 s0 s := by
  obtain ⟨top, sent⟩ := s
  obtain ⟨rfl, rfl⟩ : top = s0 ∧ sent = [] := hs
  refine ⟨?_, rfl, rfl, rfl, rfl, fun h i hi => ?_, fun x hx => absurd hx List.not_mem_nil⟩
  · rw [List.map_nil, List.append_nil, accBase_start hv hl h0]
    exact booked_rebuilt hv hl []
  · obtain ⟨r, hr⟩ := Option.isSome_iff_exists.mp ((records_start h0).2 h i hi)
    exact ⟨r, r, hr, hr, rfl⟩

theorem books_start (hO : O.Lawful) (h0 : initAccount O info conf (some a0) [] = some s0)
    {s : Running τ} (hs : (sys O info base s0).start s) : Books O base s := by
  obtain ⟨htop, hsent⟩ := hs
  refine ⟨fun h buy n => ?_, fun k x hx => ?_⟩
  · rw [htop, hsent, (records_start h0).1]
    refine iff_of_false (hO.mem_empty n) ?_
    rintro ⟨k, x, hx, -⟩
    cases hx
  · rw [hsent] at hx
    cases hx

/-! ## Whole runs -/

theorem inv_next (hO : O.Lawful) (hv : info.VolMultiplesOk) (s : Running τ) (e : RunningEvent)
    (hs : Inv info a0 s0 s ∧ Books O base s) (he : Ok O info base s e) :
    Inv info a0 s0 (next O info base s e) ∧ Books O base (next O info base s e) := by
  obtain ⟨hi, hb⟩ := hs
  cases e with
  | check dir off px vol h nano =>
    simp only [next, hi.fst_check]
    exact ⟨hi, hb⟩
  | insert d unit nano nano' => exact ⟨inv_insert hv hi he.1 unit nano nano', books_insert hO hb he⟩
  | rtn k m => exact ⟨inv_rtn hv hi he, books_rtn hO hb (fun x hx => (hi.sound x hx).1) he⟩

theorem inv_of_reachable (hO : O.Lawful) (hv : info.VolMultiplesOk) (hl : Linked info a0)
    (h0 : initAccount O info conf (some a0) [] = some s0) {s : Running τ}
    (hs : (sys O info base s0).Reachable s) : Inv info a0 s0 s ∧ Books O base s :=
  (sys O info base s0).invariant (I := fun s => Inv info a0 s0 s ∧ Books O base s)
    (fun _ h => ⟨inv_start hv hl h0 h, books_start hO h0 h⟩) (inv_next hO hv) hs

end Running

/-! ## What a check answers -/

section Answers

variable {τ : Type} {O : Treap τ} {info : TradeBaseInfo}

/-- The best order of the other side would be crossed. -/
def Crossed (O : Treap τ) (dir : Dir) (px : ℚ) (r : RiskInstrTop τ) : Prop :=
  (dir = .buy → ∃ n, O.top r.askTreap = some n ∧ n.price ≤ px) ∧
    (dir ≠ .buy → ∃ n, O.top r.bidTreap = some n ∧ px ≤ n.price)

theorem check_of_crossed {r : RiskInstrTop τ} {dir : Dir} {px : ℚ} (hc : Crossed O dir px r)
    (ab : AccBase) (off : Off) (vol nano : Int) :
    r.check O ab dir off px vol nano = if dir = .buy then -230 else -231 := by
  unfold RiskInstrTop.check
  by_cases hd : dir = .buy
  · obtain ⟨n, hn, hp⟩ := hc.1 hd
    simp only [hd, hn, if_true, ge_iff_le, hp]
  · obtain ⟨n, hn, hp⟩ := hc.2 hd
    simp only [hd, hn, if_false, hp, if_true]

theorem check_of_not_crossed {r : RiskInstrTop τ} {dir : Dir} {px : ℚ} (hc : ¬Crossed O dir px r)
    (ab : AccBase) (off : Off) (vol nano : Int) :
    r.check O ab dir off px vol nano = r.toRiskInstr.check ab dir off vol nano := by
  unfold RiskInstrTop.check
  by_cases hd : dir = .buy
  · rw [if_pos hd]
    cases hn : O.top r.askTreap with
    | none => rfl
    | some n =>
      refine if_neg fun hp => hc ⟨fun _ => ⟨n, hn, hp⟩, fun h => absurd hd h⟩
  · rw [if_neg hd]
    cases hn : O.top r.bidTreap with
    | none => rfl
    | some n =>
      refine if_neg fun hp => hc ⟨fun h => absurd h hd, fun _ => ⟨n, hn, hp⟩⟩

/-- The layers of `check` on a record that is there. -/
theorem snd_check_of_present {s : RiskTop τ} {h : Hash} {i : InstrumentInfo} {r : RiskInstrTop τ}
    (hi : info.find h = some i) (hr : s.mapRiskInstr.lookup h = some r) (dir : Dir) (off : Off)
    (px : ℚ) (vol nano : Int) :
    (s.check O info dir off px vol h nano).2 = some
      (if off = .auto ∨ off = .close then -405
      else if r.check O s.accBase dir off px vol nano ≠ 0 then r.check O s.accBase dir off px vol nano
      else if (s.riskPrdAt i.productHash).check s.accBase dir off vol ≠ 0 then
        (s.riskPrdAt i.productHash).check s.accBase dir off vol
      else s.riskAcc.check s.accBase.modAcc dir off px vol i.volMultiple) := by
  rw [← TradeBaseInfo.instrHash_eq hi] at hr
  unfold RiskTop.check
  simp only [hi, RiskTop.findOrReg_of_present hr]
  split
  · rfl
  · split
    · rfl
    · split <;> rfl

theorem instrCheck_congr {q q' : RiskInstr} {ab ab' : AccBase} {nano : Int}
    (hs : q.settings = q'.settings) (hu : q.unitVol ab = q'.unitVol ab')
    (hn : q.isIntensityNormal nano = true) (hn' : q'.isIntensityNormal nano = true) (dir : Dir)
    (off : Off) (vol : Int) : q.check ab dir off vol nano = q'.check ab' dir off vol nano := by
  simp only [RiskInstr.settings, RiskInstr.mk.injEq, true_and] at hs
  obtain ⟨-, -, -, hallowed, hsize, hlong, hshort, hnet⟩ := hs
  unfold RiskInstr.check RiskInstr.isSizeCorrect RiskInstr.isInstrumentLongVolumeCorrect
    RiskInstr.isInstrumentShortVolumeCorrect RiskInstr.isInstrumentNetVolumeCorrect
  rw [hu, hn, hn', hallowed, hsize, hlong, hshort, hnet]

theorem prdCheck_congr {p : RiskPrd} {ab ab' : AccBase} (hu : p.unitVol ab = p.unitVol ab')
    (dir : Dir) (off : Off) (vol : Int) : p.check ab dir off vol = p.check ab' dir off vol := by
  unfold RiskPrd.check
  rw [hu]

theorem accCheck_congr {acc acc' : ModAcc} (hcnt : acc.unfilledOrderCnt = acc'.unfilledOrderCnt)
    (hamt : acc.unitAmt = acc'.unitAmt) (r : RiskAcc) (dir : Dir) (off : Off) (px : ℚ) (vol vm : Int) :
    r.check acc dir off px vol vm = r.check acc' dir off px vol vm := by
  unfold RiskAcc.check RiskAcc.isUnfilledOrderCountCorrect
  rw [hcnt, hamt]

theorem prdCheck_ne (p : RiskPrd) (ab : AccBase) (dir : Dir) (off : Off) (vol : Int) :
    p.check ab dir off vol ≠ -230 ∧ p.check ab dir off vol ≠ -231 := by
  simp only [RiskPrd.check]
  refine ⟨?_, ?_⟩ <;> repeat' split
  all_goals decide

theorem accCheck_ne (r : RiskAcc) (acc : ModAcc) (dir : Dir) (off : Off) (px : ℚ) (vol vm : Int) :
    r.check acc dir off px vol vm ≠ -230 ∧ r.check acc dir off px vol vm ≠ -231 := by
  simp only [RiskAcc.check]
  refine ⟨?_, ?_⟩ <;> repeat' split
  all_goals decide

/-- What two risk accounts have in common that differ in their treaps, their
intensity counters and in what no check reads. -/
structure Alike (info : TradeBaseInfo) (s r : RiskTop τ) : Prop where
  acc : SameRead s.accBase r.accBase
  instrGen : s.accBase.mapInstr.gen = r.accBase.mapInstr.gen
  prdGen : s.accBase.mapPrd.gen = r.accBase.mapPrd.gen
  prd : s.mapRiskPrd = r.mapRiskPrd
  riskAcc : s.riskAcc = r.riskAcc
  instr : Running.Configured info r s

/-- They answer alike but for an order that the treaps of one refuse. -/
theorem Alike.answer_iff {s r : RiskTop τ} (ha : Alike info s r) {h : Hash} {i : InstrumentInfo}
    {q q' : RiskInstrTop τ} {nano : Int} (hi : info.find h = some i)
    (hq : s.mapRiskInstr.lookup h = some q) (hq' : r.mapRiskInstr.lookup h = some q')
    (hn : q.isIntensityNormal nano = true) (hn' : q'.isIntensityNormal nano = true)
    {dir : Dir} {px : ℚ} (hc : ¬Crossed O dir px q') (off : Off) (vol : Int) :
    (r.check O info dir off px vol h nano).2 = (s.check O info dir off px vol h nano).2 ↔
      ¬((off ≠ .auto ∧ off ≠ .close) ∧ Crossed O dir px q) := by
  obtain ⟨q1, q1', hq1, hq1', hset⟩ := ha.instr h i hi
  obtain rfl : q = q1 := Option.some.inj (hq.symm.trans hq1)
  obtain rfl : q' = q1' := Option.some.inj (hq'.symm.trans hq1')
  have hread : ∀ k, (s.accBase.mapInstr.find k).map (·.unitVol) =
      (r.accBase.mapInstr.find k).map (·.unitVol) := by
    intro k
    have h := congrArg (Option.map ModInstr.unitVol) (ha.acc.instr k)
    rw [Option.map_map, Option.map_map] at h
    exact h
  have hu : q.unitVol s.accBase = q'.unitVol r.accBase := by
    have hp : q.toRiskInstr.settings.pUnitVol = q'.toRiskInstr.settings.pUnitVol := by rw [hset]
    change q.pUnitVol = q'.pUnitVol at hp
    unfold RiskInstr.unitVol
    rw [hp]
    rcases q'.pUnitVol with _ | p
    · rfl
    · exact congrArg (Option.getD · 0) (NodeMap.map_deref_congr ha.instrGen hread p)
  have hup : (s.riskPrdAt i.productHash).unitVol s.accBase =
      (r.riskPrdAt i.productHash).unitVol r.accBase := by
    unfold RiskTop.riskPrdAt RiskPrd.unitVol
    rw [ha.prd]
    rcases ((r.mapRiskPrd.lookup i.productHash).getD {}).pUnitVol with _ | p
    · rfl
    · exact congrArg (Option.getD · 0) (NodeMap.map_deref_congr ha.prdGen ha.acc.prd p)
  have hat : s.riskPrdAt i.productHash = r.riskPrdAt i.productHash := by
    unfold RiskTop.riskPrdAt
    rw [ha.prd]
  have hinstr := instrCheck_congr hset hu hn hn' dir off vol
  have hprd := prdCheck_congr (hup.trans (by rw [hat])) dir off vol
  have hacc := accCheck_congr ha.acc.unfilled ha.acc.unitAmt s.riskAcc dir off px vol i.volMultiple
  rw [snd_check_of_present hi hq', snd_check_of_present hi hq, check_of_not_crossed hc, ← hinstr,
    ← hat, ← hprd, ← ha.riskAcc, ← hacc, Option.some.injEq]
  by_cases hoff : off = .auto ∨ off = .close
  · rw [if_pos hoff, if_pos hoff]
    refine iff_of_true rfl fun hno => ?_
    exact hoff.elim hno.1.1 hno.1.2
  · rw [if_neg hoff, if_neg hoff]
    have hdef : off ≠ .auto ∧ off ≠ .close := not_or.mp hoff
    by_cases hcross : Crossed O dir px q
    · refine iff_of_false ?_ (not_not.mpr ⟨hdef, hcross⟩)
      rw [check_of_crossed hcross]
      have h1 := q.toRiskInstr.check_ne s.accBase dir off vol nano
      have h2 := prdCheck_ne (s.riskPrdAt i.productHash) s.accBase dir off vol
      have h3 := accCheck_ne s.riskAcc s.accBase.modAcc dir off px vol i.volMultiple
      by_cases hd : dir = .buy
      · rw [if_pos hd, if_pos (show (-230 : Int) ≠ 0 by decide)]
        split
        · exact h1.1
        · split
          · exact h2.1
          · exact h3.1
      · rw [if_neg hd, if_pos (show (-231 : Int) ≠ 0 by decide)]
        split
        · exact h1.2
        · split
          · exact h2.2
          · exact h3.2
    · rw [check_of_not_crossed hcross]
      exact iff_of_true rfl fun hno => hcross hno.2

end Answers

/-! ## The two accounts -/

variable {τ : Type}

/-- The order-intensity limit has nothing against an order at this time. -/
def IntensityNormal (s : RiskTop τ) (h : Hash) (nano : Int) : Prop :=
  ∀ q, s.mapRiskInstr.lookup h = some q → q.isIntensityNormal nano = true

/-- The same answer to every check, apart from the order-intensity limit. -/
def SameAnswers (O : Treap τ) (info : TradeBaseInfo) (s r : RiskTop τ) : Prop :=
  ∀ dir off px vol h nano, IntensityNormal s h nano → IntensityNormal r h nano →
    (r.check O info dir off px vol h nano).2 = (s.check O info dir off px vol h nano).2

namespace Running

variable {O : Treap τ} {info : TradeBaseInfo} {base : Int} {s0 : RiskTop τ} {a0 : AccBase}

/-- Some working order of `h` would be crossed. -/
def Crosses (s : Running τ) (h : Hash) (dir : Dir) (px : ℚ) : Prop :=
  ∃ x ∈ s.sent, WorkingOn h (!decide (dir = .buy)) x ∧
    (dir = .buy → x.track.price ≤ px) ∧ (dir ≠ .buy → px ≤ x.track.price)

/-- The last price of an instrument with a position is the one its tracks give:
the average price of the last of them that has executed. -/
def Marked (info : TradeBaseInfo) (a0 : AccBase) (s : Running τ) : Prop :=
  ∀ h i, info.find h = some i →
    (s.top.accBase.booksAt h i).instr.unitPx.lastPx =
        lastPxOf h (a0.booksAt h i).instr.unitPx.lastPx (s.sent.map (·.track)) ∨
      (s.top.accBase.booksAt h i).instr.unitVol.posLong = 0 ∧
        (s.top.accBase.booksAt h i).instr.unitVol.posShort = 0

theorem crosses_iff (hO : O.Lawful) {s : Running τ} (hb : Books O base s) {h : Hash}
    {q : RiskInstrTop τ} (hq : s.top.mapRiskInstr.lookup h = some q) (dir : Dir) (px : ℚ) :
    Crossed O dir px q ↔ s.Crosses h dir px := by
  have hside : ∀ buy, RiskTop.side O h buy s.top = if buy then q.bidTreap else q.askTreap := by
    intro buy
    unfold RiskTop.side RiskTop.riskInstrAt
    rw [hq]
    rfl
  have htop : ∀ buy, (∃ x ∈ s.sent, WorkingOn h buy x ∧
      RiskTop.worth buy px ≤ RiskTop.worth buy x.track.price) ↔
      ∃ n, O.top (if buy then q.bidTreap else q.askTreap) = some n ∧
        RiskTop.worth buy px ≤ RiskTop.worth buy n.price := by
    intro buy
    rw [← RiskTop.exists_mem_iff_top hO, ← hside]
    · constructor
      · rintro ⟨x, hx, hwork, hle⟩
        obtain ⟨k, hk⟩ := List.getElem?_of_mem hx
        exact ⟨nodeOf x.track, (hb.side h buy _).mpr ⟨k, x, hk, hwork, rfl⟩, hle⟩
      · rintro ⟨n, hn, hle⟩
        obtain ⟨k, x, hk, hwork, rfl⟩ := (hb.side h buy n).mp hn
        exact ⟨x, List.mem_of_getElem? hk, hwork, hle⟩
    · intro n hn
      rw [← hside] at hn
      obtain ⟨k, x, -, hwork, rfl⟩ := (hb.side h buy n).mp hn
      exact hwork.2.1
  have hsell := htop false
  have hbuy := htop true
  simp only [RiskTop.worth, Bool.false_eq_true, if_false, if_true, neg_le_neg_iff] at hsell hbuy
  unfold Crossed Crosses
  by_cases hd : dir = .buy
  · simp only [hd, ← hsell, forall_true_left, ne_eq, not_true_eq_false, false_imp_iff, and_true,
      decide_true, Bool.not_true]
  · simp only [hd, ← hbuy, ne_eq, not_false_eq_true, forall_true_left, false_imp_iff, true_and,
      decide_false, Bool.not_false]

/-- The rebuilt account. -/
theorem alike_rebuilt (hv : info.VolMultiplesOk) (hl : Linked info a0) {conf : RiskConf}
    (h0 : initAccount O info conf (some a0) [] = some s0) {s : Running τ} (hs : Inv info a0 s0 s)
    (hset : ∀ x ∈ s.sent, x.Settled) (hpx : Marked info a0 s) :
    Alike info s.top { s0 with accBase := rebuilt info (s.sent.map (·.track)) a0 } := by
  have hgen := gen_rebuilt hv hl (s.sent.map (·.track))
  have hgen0 := gen_rebuilt hv hl []
  have hposted : postings info (s.sent.map (·.track)) = s.sent.map (Helper.posting info) := by
    unfold postings
    rw [List.map_map]
    refine List.map_congr_left fun x hx => ?_
    obtain ⟨hsound, hsend⟩ := hs.sound x hx
    simp only [Function.comp, Helper.posting,
      Sent.effect_settled _ hsound (hasAny.mono (by decide) hsend) (hset x hx)]
  have hb := booked_rebuilt hv hl (s.sent.map (·.track))
  rw [hposted] at hb
  refine ⟨hs.booked.sameRead (hb.equiv (Equiv.of_perm List.perm_append_comm)) ?_, ?_, ?_, hs.prd,
    hs.acc, hs.instr⟩
  · intro h i hi _
    rw [lastPx_rebuilt hv hl _ hi]
    exact hpx h i hi
  · rw [hs.instrGen, accBase_start hv hl h0, hgen.1, hgen0.1]
  · rw [hs.prdGen, accBase_start hv hl h0, hgen.2, hgen0.2]

/-- An order that a check of the running account refuses for a working order is
let through, as far as that goes, by the rebuilt account; all other answers are
the same. -/
theorem answer_iff (hO : O.Lawful) {conf : RiskConf}
    (h0 : initAccount O info conf (some a0) [] = some s0) {s : Running τ} (hs : Inv info a0 s0 s)
    (hb : Books O base s) {ab : AccBase} (ha : Alike info s.top { s0 with accBase := ab }) (dir : Dir)
    (off : Off) (px : ℚ) (vol : Int) (h : Hash) (nano : Int) (hn : IntensityNormal s.top h nano)
    (hn' : IntensityNormal s0 h nano) :
    (RiskTop.check O info dir off px vol h nano { s0 with accBase := ab }).2 =
        (s.top.check O info dir off px vol h nano).2 ↔
      ¬((off ≠ .auto ∧ off ≠ .close) ∧ (info.find h).isSome = true ∧ s.Crosses h dir px) := by
  rcases hi : info.find h with _ | i
  · have hzero : ∀ r : RiskTop τ, (r.check O info dir off px vol h nano).2 = some 0 := by
      intro r
      unfold RiskTop.check
      rw [hi]
    rw [hzero, hzero]
    simp
  · obtain ⟨q, q', hq, hq', -⟩ := hs.instr h i hi
    have hempty : ¬Crossed O dir px q' := by
      have hno : ∀ buy : Bool, O.top (if buy then q'.bidTreap else q'.askTreap) = none := by
        intro buy
        have hside := (records_start h0).1 h buy
        unfold RiskTop.side RiskTop.riskInstrAt at hside
        rw [hq', Option.getD_some] at hside
        rw [hside]
        exact (hO.top_none _).mpr hO.mem_empty
      intro hc
      by_cases hd : dir = .buy
      · obtain ⟨n, hn, -⟩ := hc.1 hd
        rw [show q'.askTreap = if false then q'.bidTreap else q'.askTreap from rfl, hno] at hn
        cases hn
      · obtain ⟨n, hn, -⟩ := hc.2 hd
        rw [show q'.bidTreap = if true then q'.bidTreap else q'.askTreap from rfl, hno] at hn
        cases hn
    rw [ha.answer_iff hi hq hq' (hn q hq) (hn' q' hq') hempty, crosses_iff hO hb hq]
    simp

/-- A time at which the intensity limit has nothing against an order. -/
theorem exists_intensityNormal (q q' : RiskInstr) :
    ∃ nano, q.isIntensityNormal nano = true ∧ q'.isIntensityNormal nano = true := by
  have hlate : ∀ (q : RiskInstr) (nano : Int),
      q.intensityCycleTimeRecord + ⌈q.intensityCycleTimeSpanThreshold⌉ ≤ nano →
        q.isIntensityNormal nano = true := by
    intro q nano hle
    have hspan : q.intensityCycleTimeSpanThreshold ≤ ((nano - q.intensityCycleTimeRecord : Int) : ℚ) :=
      Int.ceil_le.mp (by omega)
    unfold RiskInstr.isIntensityNormal
    simp only [decide_eq_false (not_lt.mpr hspan), Bool.and_false, Bool.not_false]
  refine ⟨max (q.intensityCycleTimeRecord + ⌈q.intensityCycleTimeSpanThreshold⌉)
    (q'.intensityCycleTimeRecord + ⌈q'.intensityCycleTimeSpanThreshold⌉), ?_, ?_⟩
  · exact hlate q _ (le_max_left _ _)
  · exact hlate q' _ (le_max_right _ _)

/-- Every working order has a side and a price at which it would be crossed. -/
theorem exists_crosses {s : Running τ} {x : Sent} (hx : x ∈ s.sent)
    (hopen : ¬ x.track.status.has .closed) : ∃ dir, s.Crosses x.track.instrHash dir x.track.price := by
  by_cases hd : x.track.dir = .buy
  · exact ⟨.sell, x, hx, ⟨rfl, by simp [hd], hopen⟩, fun _ => le_rfl, fun _ => le_rfl⟩
  · exact ⟨.buy, x, hx, ⟨rfl, by simp [hd], hopen⟩, fun _ => le_rfl, fun _ => le_rfl⟩

/-- **A restart forgets the working orders.** After a run whose closing returns
carried what the fills left over, and with the last prices the tracks give, the
risk account rebuilt from the tracks answers a check like the running one exactly
when the order would not cross a working order; all checks exactly when no order
of a known instrument is working. -/
theorem sameAnswers_iff (hO : O.Lawful) (hv : info.VolMultiplesOk) (hl : Linked info a0)
    {conf : RiskConf} (h0 : initAccount O info conf (some a0) [] = some s0) {s : Running τ}
    (hs : (sys O info base s0).Reachable s) (hset : ∀ x ∈ s.sent, x.Settled)
    (hpx : Marked info a0 s) :
    ∃ r, initAccount O info conf (some a0) (s.sent.map (·.track)) = some r ∧
      (SameAnswers O info s.top r ↔ ∀ x ∈ s.sent, (info.find x.track.instrHash).isSome = true →
        x.track.status.has .closed = true) ∧
      ∀ dir off px vol h nano, IntensityNormal s.top h nano → IntensityNormal r h nano →
        ((r.check O info dir off px vol h nano).2 = (s.top.check O info dir off px vol h nano).2 ↔
          ¬((off ≠ .auto ∧ off ≠ .close) ∧ (info.find h).isSome = true ∧ s.Crosses h dir px)) := by
  obtain ⟨hi, hb⟩ := inv_of_reachable hO hv hl h0 hs
  have hr : initAccount O info conf (some a0) (s.sent.map (·.track)) =
      some { s0 with accBase := rebuilt info (s.sent.map (·.track)) a0 } := by
    rw [initAccount_eq hv conf hl, h0]
    rfl
  have hone := answer_iff hO h0 hi hb (alike_rebuilt hv hl h0 hi hset hpx)
  refine ⟨_, hr, ⟨fun hsame x hx hknown => ?_, fun hall => ?_⟩, hone⟩
  · by_contra hopen
    obtain ⟨i, hfind⟩ := Option.isSome_iff_exists.mp hknown
    obtain ⟨q, q', hq, hq', -⟩ := hi.instr _ i hfind
    obtain ⟨nano, hn, hn'⟩ := exists_intensityNormal q.toRiskInstr q'.toRiskInstr
    obtain ⟨dir, hcross⟩ := exists_crosses hx hopen
    have hnorm : IntensityNormal s.top x.track.instrHash nano := fun p hp => by
      cases hq.symm.trans hp
      exact hn
    have hnorm' : IntensityNormal s0 x.track.instrHash nano := fun p hp => by
      cases hq'.symm.trans hp
      exact hn'
    refine (hone dir .opn x.track.price 1 x.track.instrHash nano hnorm hnorm').mp
      (hsame dir .opn x.track.price 1 x.track.instrHash nano hnorm hnorm') ⟨?_, hknown, hcross⟩
    exact ⟨by decide, by decide⟩
  · intro dir off px vol h nano hn hn'
    refine (hone dir off px vol h nano hn hn').mpr ?_
    rintro ⟨-, hknown, x, hx, ⟨rfl, -, hopen⟩, -⟩
    exact hopen (hall x hx hknown)

/-! ## A working sell -/

/-- An account without orders. -/
def rbStart : RiskTop (List TreapNode) :=
  (initAccount (listOps TreapNode.orderRef TreapNode.priorityOrder) .rb Desk.rbConf (some {}) []).getD {}

theorem initAccount_rbStart : initAccount (listOps TreapNode.orderRef TreapNode.priorityOrder) .rb
    Desk.rbConf (some {}) [] = some rbStart := by
  obtain ⟨s, h⟩ := Option.isSome_iff_exists.mp (show (initAccount
    (listOps TreapNode.orderRef TreapNode.priorityOrder) .rb Desk.rbConf (some {}) []).isSome = true
    by decide +kernel)
  rw [rbStart, h]
  rfl

/-- A buy of 2 at 10, filled by 1 and cancelled, and a sell of 1 at 11. -/
def rbOrders : List RunningEvent :=
  [.insert ⟨1, 0, 0, 1, "rb1810", 10, 2, .buy, .opn, 0⟩ ⟨0, 0⟩ 0 0,
    .rtn 0 { msgType := ods .execution, price := 10, vol := 1 },
    .rtn 0 { msgType := ods .canceled, vol := 1 },
    .insert ⟨1, 1, 0, 1, "rb1810", 11, 1, .sell, .opn, 0⟩ ⟨0, 0⟩ 0 0]

def rbRunning : Running (List TreapNode) :=
  (sys (listOps TreapNode.orderRef TreapNode.priorityOrder) .rb 1 rbStart).exec ⟨rbStart, []⟩ rbOrders

theorem rbRunning_reachable :
    (sys (listOps TreapNode.orderRef TreapNode.priorityOrder) .rb 1 rbStart).Reachable rbRunning := by
  refine ⟨_, rbOrders, ⟨rfl, rfl⟩, ?_, rfl⟩
  refine ⟨⟨by decide, by decide, ?_⟩, ⟨_, rfl, ⟨[.execution], rfl⟩, ?_, ?_⟩,
    ⟨_, rfl, ⟨[.canceled], rfl⟩, ?_, ?_⟩, ⟨by decide, by decide, ?_⟩, trivial⟩ <;> decide +kernel

theorem rbRunning_marked : Marked .rb {} rbRunning := by
  intro h i hi
  rcases TradeBaseInfo.rbInfo_cases hi with ⟨rfl, rfl⟩ | ⟨rfl, rfl⟩
  · exact Or.inr (by decide +kernel)
  · exact Or.inl (by decide +kernel)

theorem sameAnswers_rb :
    let O := listOps TreapNode.orderRef TreapNode.priorityOrder
    ∃ r, initAccount O .rb Desk.rbConf (some {}) (rbRunning.sent.map (·.track)) = some r ∧
      (SameAnswers O .rb rbRunning.top r ↔ ∀ x ∈ rbRunning.sent,
        (TradeBaseInfo.rb.find x.track.instrHash).isSome = true →
          x.track.status.has .closed = true) ∧
      ∀ dir off px vol h nano, IntensityNormal rbRunning.top h nano → IntensityNormal r h nano →
        ((r.check O .rb dir off px vol h nano).2 = (rbRunning.top.check O .rb dir off px vol h nano).2 ↔
          ¬((off ≠ .auto ∧ off ≠ .close) ∧ (TradeBaseInfo.rb.find h).isSome = true ∧
            rbRunning.Crosses h dir px)) :=
  sameAnswers_iff (listOps_lawful _ _) TradeBaseInfo.rb_volMultiplesOk linked_empty initAccount_rbStart
    rbRunning_reachable (by decide +kernel) rbRunning_marked

/-- A buy at 11 would be filled by the account's own sell. The running account
refuses it, the rebuilt one lets it through. -/
theorem not_sameAnswers_rb :
    let O := listOps TreapNode.orderRef TreapNode.priorityOrder
    ∃ r, (sys O .rb 1 rbStart).Reachable rbRunning ∧
      initAccount O .rb Desk.rbConf (some {}) (rbRunning.sent.map (·.track)) = some r ∧
      (rbRunning.top.check O .rb .buy .opn 11 1 1 0).2 = some (-230) ∧
      (r.check O .rb .buy .opn 11 1 1 0).2 = some 0 ∧ ¬SameAnswers O .rb rbRunning.top r := by
  dsimp only
  have hr : (initAccount (listOps TreapNode.orderRef TreapNode.priorityOrder) .rb Desk.rbConf (some {})
      (rbRunning.sent.map (·.track))).map (fun r =>
        ((r.check (listOps TreapNode.orderRef TreapNode.priorityOrder) .rb .buy .opn 11 1 1 0).2,
          (r.mapRiskInstr.lookup 1).all fun q => q.isIntensityNormal 0)) = some (some 0, true) := by
    decide +kernel
  have hs : (rbRunning.top.mapRiskInstr.lookup 1).all (fun q => q.isIntensityNormal 0) = true := by
    decide +kernel
  have hlive : (rbRunning.top.check (listOps TreapNode.orderRef TreapNode.priorityOrder) .rb .buy .opn
      11 1 1 0).2 = some (-230) := by decide +kernel
  obtain ⟨r, hinit, hpair⟩ := Option.map_eq_some_iff.mp hr
  obtain ⟨h0, hq⟩ := Prod.mk.inj hpair
  refine ⟨r, rbRunning_reachable, hinit, hlive, h0, fun hsame => ?_⟩
  have := hsame .buy .opn 11 1 1 0 (fun q hq' => by rw [hq'] at hs; exact hs)
    (fun q hq' => by rw [hq'] at hq; exact hq)
  rw [h0, hlive] at this
  cases this

end Running

end NatFramework.Td
