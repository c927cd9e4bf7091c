import NatFramework.Td.FakeOrders

/-!
# The simulated exchange conserves volume

Runs of `sendOrder`, `doDelOrder` and `on_tick` on `CTDHelperFake`.

* `Against`: what has been traded against a tick, and what is left of it.
* `Elsewhere`: a step that leaves an instrument alone.
* `volume_conserved`: orders and ticks, over every run.
-/
namespace NatFramework.Td

open Lib

/-! ## A tick and what is traded against it -/

/-- The lots executed on one side of an instrument. -/
def against (name : String) (dir : Dir) (ms : List RtnMsg) : Int :=
  ((ms.filter fun m => decide (m.msgType = ods .execution ∧ m.instr = name ∧ m.dir = dir)).map
    (·.vol)).sum

/-- The tick `t` with the messages since: `w` is what is left of it. -/
structure Against (t : TickData) (new : List RtnMsg) (eng : List OrderTrack) (w : TTick) : Prop where
  quote : ∀ dir, w.quote dir = t.tick.quote dir
  nonneg : ∀ dir, 0 ≤ w.lotsFor dir
  lots : ∀ dir, Dir.Valid dir → against t.instrStr dir new + w.lotsFor dir = t.tick.lotsFor dir
  price : ∀ m ∈ new, m.msgType = ods .execution → m.instr = t.instrStr →
    ∃ (id : Nat) (ot : OrderTrack), m.localId = id ∧ eng[id]? = some ot ∧ m.dir = ot.dir ∧
      PriceBetween ot.dir (t.tick.quote ot.dir) ot.price m.price

/-- What an order is sent with. -/
def terms (ot : OrderTrack) : String × Dir × Int × ℚ := (ot.instr, ot.dir, ot.vol, ot.price)

/-- No order is lost, and none changes its terms. -/
def KeepsOrders (eng eng' : List OrderTrack) : Prop := eng.map terms <+: eng'.map terms

theorem KeepsOrders.append (eng : List OrderTrack) (ots : List OrderTrack) :
    KeepsOrders eng (eng ++ ots) := by
  unfold KeepsOrders
  rw [List.map_append]
  exact List.prefix_append _ _

theorem terms_set {eng : List OrderTrack} {id : Nat} {ot ot' : OrderTrack}
    (hid : eng[id]? = some ot) (hterms : terms ot' = terms ot) :
    (eng.set id ot').map terms = eng.map terms := by
  have hmap : (eng.map terms)[id]? = some (terms ot) := by rw [List.getElem?_map, hid, Option.map_some]
  obtain ⟨hlt, heq⟩ := List.getElem?_eq_some_iff.mp hmap
  rw [List.map_set, hterms, ← heq, List.set_getElem_self]

theorem KeepsOrders.of_terms {eng eng' : List OrderTrack} (h : eng'.map terms = eng.map terms) :
    KeepsOrders eng eng' := by
  unfold KeepsOrders
  rw [h]

theorem KeepsOrders.get {eng eng' : List OrderTrack} (h : KeepsOrders eng eng') {id : Nat}
    {ot : OrderTrack} (hid : eng[id]? = some ot) :
    ∃ ot', eng'[id]? = some ot' ∧ terms ot' = terms ot := by
  obtain ⟨l, hl⟩ := h
  have hmap : (eng.map terms)[id]? = some (terms ot) := by rw [List.getElem?_map, hid, Option.map_some]
  have hmap' : (eng'.map terms)[id]? = some (terms ot) := by
    rw [← hl, List.getElem?_append_left (List.getElem?_eq_some_iff.mp hmap).1, hmap]
  rw [List.getElem?_map] at hmap'
  exact Option.map_eq_some_iff.mp hmap'

theorem TTick.quote_take (dir dir' : Dir) (n : Int) (w : TTick) :
    (w.take dir n).quote dir' = w.quote dir' := by
  cases dir <;> cases dir' <;> rfl

theorem TTick.lotsFor_take {dir : Dir} (h : Dir.Valid dir) (n : Int) (w : TTick) :
    (w.take dir n).lotsFor dir = w.lotsFor dir - n := by
  rcases h with rfl | rfl <;> rfl

theorem TTick.lotsFor_take_ne {dir dir' : Dir} (h : dir' ≠ dir) (n : Int) (w : TTick) :
    (w.take dir n).lotsFor dir' = w.lotsFor dir' := by
  cases dir <;> cases dir' <;> first | rfl | exact absurd rfl h

theorem against_concat (name : String) (dir : Dir) (ms : List RtnMsg) (m : RtnMsg) :
    against name dir (ms ++ [m]) = against name dir ms +
      if m.msgType = ods .execution ∧ m.instr = name ∧ m.dir = dir then m.vol else 0 := by
  unfold against
  rw [List.filter_append, List.map_append, List.sum_append]
  split
  · rename_i h
    rw [List.filter_cons_of_pos (by simpa using h)]
    simp
  · rename_i h
    rw [List.filter_cons_of_neg (by simpa using h)]
    simp

namespace Against

variable {t : TickData} {new : List RtnMsg} {eng eng' : List OrderTrack} {w : TTick} {m : RtnMsg}

theorem start (h : 0 ≤ t.askVol ∧ 0 ≤ t.bidVol) (eng : List OrderTrack) : Against t [] eng t.tick where
  quote _ := rfl
  nonneg dir := by
    cases dir with
    | buy => exact h.1
    | sell => exact h.2
    | unknown => exact Int.le_refl 0
  lots _ _ := Int.zero_add _
  price _ hm := nomatch hm

theorem keep (h : Against t new eng w) (hk : KeepsOrders eng eng') : Against t new eng' w :=
  { h with
    price := fun m hm he hi => by
      obtain ⟨id, ot, hid, hot, hdir, hbetween⟩ := h.price m hm he hi
      obtain ⟨ot', hot', hterms⟩ := hk.get hot
      simp only [terms, Prod.mk.injEq] at hterms
      obtain ⟨-, hdir', -, hprice'⟩ := hterms
      exact ⟨id, ot', hid, hot', hdir.trans hdir'.symm, by rw [hdir', hprice']; exact hbetween⟩ }

/-- A message that is no execution of the instrument. -/
theorem other (h : Against t new eng w)
    (hm : m.msgType = ods .execution → m.instr ≠ t.instrStr) : Against t (new ++ [m]) eng w where
  quote := h.quote
  nonneg := h.nonneg
  lots dir hdir := by
    rw [against_concat, if_neg fun hx => hm hx.1 hx.2.1, Int.add_zero]
    exact h.lots dir hdir
  price x hx he hi := by
    rcases List.mem_append.mp hx with hx | hx
    · exact h.price x hx he hi
    · rw [List.mem_singleton.mp hx] at he hi
      exact absurd hi (hm he)

theorem others (h : Against t new eng w) {ms : List RtnMsg}
    (hms : ∀ m ∈ ms, m.msgType = ods .execution → m.instr ≠ t.instrStr) :
    Against t (new ++ ms) eng w := by
  induction ms using List.reverseRecOn with
  | nil => rwa [List.append_nil]
  | append_singleton ms m ih =>
    rw [← List.append_assoc]
    exact (ih fun x hx => hms x (List.mem_append_left [m] hx)).other (hms m (by simp))

/-- A trade of an order of the instrument. -/
theorem trade (h : Against t new eng w) {id : Nat} {ot : OrderTrack} (hid : eng[id]? = some ot)
    (hvalid : Dir.Valid ot.dir) (hinstr : ot.instr = t.instrStr) {trade : Int}
    (hle : trade ≤ w.lotsFor ot.dir) {price : ℚ}
    (hprice : PriceBetween ot.dir (w.quote ot.dir) ot.price price) :
    Against t (new ++ [CTDHelperFake.execution ot id trade price]) eng (w.take ot.dir trade) where
  quote dir := by rw [TTick.quote_take, h.quote]
  nonneg dir := by
    by_cases hd : dir = ot.dir
    · rw [hd, TTick.lotsFor_take hvalid]
      omega
    · rw [TTick.lotsFor_take_ne hd]
      exact h.nonneg dir
  lots dir hdir := by
    have hlots := h.lots dir hdir
    rw [against_concat]
    by_cases hd : dir = ot.dir
    · rw [if_pos ⟨rfl, hinstr, hd.symm⟩]
      rw [hd] at hlots ⊢
      rw [TTick.lotsFor_take hvalid]
      simp only [CTDHelperFake.execution]
      omega
    · rw [if_neg fun hx => hd hx.2.2.symm, TTick.lotsFor_take_ne hd, Int.add_zero]
      exact hlots
  price m hm he hi := by
    rcases List.mem_append.mp hm with hm | hm
    · exact h.price m hm he hi
    · rw [List.mem_singleton.mp hm]
      exact ⟨id, ot, rfl, hid, rfl, by rw [← h.quote]; exact hprice⟩

end Against

theorem PriceBetween.valid {dir : Dir} {quote limit price : ℚ}
    (h : PriceBetween dir quote limit price) : Dir.Valid dir := by
  cases dir with
  | buy => exact .inl rfl
  | sell => exact .inr rfl
  | unknown code => exact h.elim

/-! ## Steps away from an instrument -/

/-- The step leaves the instrument `name`, of hash `k`, alone. -/
structure Elsewhere (k : Hash) (name : String) (s s' : CTDHelperFake) : Prop where
  wall : s'.lastTickWall k = s.lastTickWall k
  orders : KeepsOrders s.engOrderTrack s'.engOrderTrack
  messages : ∃ ms, s'.rtnMsgQueue = s.rtnMsgQueue ++ ms ∧
    ∀ m ∈ ms, m.msgType = ods .execution → m.instr ≠ name

variable {names : List String} {hash : String → Hash} {s s' s'' : CTDHelperFake} {k : Hash}
  {name : String} {id : Nat} {ot : OrderTrack}

theorem matchQueued_terms (h : FakeOk names hash s) (hq : id ∈ s.queuedTrackId) (tick : TTick) :
    (s.matchQueued id tick).1.engOrderTrack.map terms = s.engOrderTrack.map terms := by
  obtain ⟨ot, hot, hok⟩ := h.get hq
  have hleft := (hok.queued_iff.mp hq).2.1
  rcases CTDHelperFake.matchQueued_spec hot hleft tick with heq | ⟨_, _, -, -, -, -, heq⟩
  · rw [heq]
  · rw [heq]
    exact terms_set hot rfl

theorem matchQueued_wall (h : FakeOk names hash s) (hq : id ∈ s.queuedTrackId) (tick : TTick) :
    (s.matchQueued id tick).1.lastTickWall = s.lastTickWall := by
  obtain ⟨ot, hot, hok⟩ := h.get hq
  have hleft := (hok.queued_iff.mp hq).2.1
  rcases CTDHelperFake.matchQueued_spec hot hleft tick with heq | ⟨_, _, -, -, -, -, heq⟩
  · rw [heq]
  · rw [heq]
    rfl

namespace Elsewhere

theorem refl (k : Hash) (name : String) (s : CTDHelperFake) : Elsewhere k name s s :=
  ⟨rfl, List.prefix_rfl, [], (List.append_nil _).symm, fun _ hm => nomatch hm⟩

theorem trans (h : Elsewhere k name s s') (h' : Elsewhere k name s' s'') : Elsewhere k name s s'' := by
  obtain ⟨ms, hms, hother⟩ := h.messages
  obtain ⟨ms', hms', hother'⟩ := h'.messages
  refine ⟨h'.wall.trans h.wall, h.orders.trans h'.orders, ms ++ ms', ?_, ?_⟩
  · rw [hms', hms, List.append_assoc]
  · intro m hm
    rcases List.mem_append.mp hm with hm | hm
    · exact hother m hm
    · exact hother' m hm

/-- The last tick of another instrument plays no part. -/
theorem update (h : Elsewhere k name s s') {k' : Hash} (hk : k ≠ k') (w : Option TTick) :
    Elsewhere k name s { s' with lastTickWall := Function.update s'.lastTickWall k' w } :=
  ⟨by dsimp only; rw [Function.update_of_ne hk, h.wall], h.orders, h.messages⟩

theorem matchQueued (h : FakeOk names hash s) (hq : id ∈ s.queuedTrackId)
    (hot : s.engOrderTrack[id]? = some ot) (hne : ot.instr ≠ name) (tick : TTick) :
    Elsewhere k name s (s.matchQueued id tick).1 := by
  refine ⟨by rw [matchQueued_wall h hq], .of_terms (matchQueued_terms h hq tick), ?_⟩
  have hleft := ((h.orders id ot hot).queued_iff.mp hq).2.1
  rcases CTDHelperFake.matchQueued_spec hot hleft tick with heq | ⟨trade, price, -, -, -, -, heq⟩
  · rw [heq]
    exact (refl k name s).messages
  · rw [heq]
    refine ⟨[CTDHelperFake.execution ot id trade price], rfl, fun m hm _ => ?_⟩
    rw [List.mem_singleton.mp hm]
    exact hne

theorem refused (a : OrderArgs) (s : CTDHelperFake) : Elsewhere k name s (s.refused a) := by
  refine ⟨rfl, .append _ _, _, rfl, fun m hm he => ?_⟩
  rw [List.mem_singleton.mp hm] at he
  simp only [CTDHelperFake.refusal] at he
  exact absurd he (by decide)

theorem entered (a : OrderArgs) (s : CTDHelperFake) : Elsewhere k name s (s.entered a) := by
  refine ⟨rfl, .append _ _, _, rfl, fun m hm he => ?_⟩
  simp only [CTDHelperFake.acceptances, List.mem_cons, List.not_mem_nil, or_false] at hm
  rcases hm with rfl | rfl | rfl
  · exact absurd he (by dsimp only; decide)
  · exact absurd he (by dsimp only; decide)
  · exact absurd he (by dsimp only; decide)

theorem send (h : FakeOk names hash s) {a : OrderArgs}
    (hent : Dir.Valid a.dir → FakeOk names hash (s.entered a)) (hne : a.instr ≠ name)
    (hk : k ≠ a.instrHash) : Elsewhere k name s (s.sendOrder a) := by
  by_cases hvalid : Dir.Valid a.dir
  · rw [CTDHelperFake.sendOrder_valid hvalid]
    cases s.lastTickWall a.instrHash with
    | none => exact entered a s
    | some tick =>
      obtain ⟨ot, hot, hinstr⟩ := h.entered_get a
      have hmatch : Elsewhere k name s
          ((s.entered a).matchQueued s.orderTrack.length tick).1 :=
        (entered a s).trans (matchQueued (hent hvalid) (h.entered_queued a) hot (hinstr ▸ hne) tick)
      exact hmatch.update hk _
  · rw [CTDHelperFake.sendOrder_invalid hvalid]
    exact refused a s

theorem tick (h : FakeOk names hash s) {t : TickData} (hne : t.instrStr ≠ name)
    (hk : k ≠ t.instrHash) : Elsewhere k name s (s.onTick t) := by
  have hloop := (tickLoop_ind (P := fun s' _ => Elsewhere k name s s')
    (fun s' tick id ot hs' hq hot hinstr he => he.trans (matchQueued hs' hq hot (hinstr ▸ hne) tick))
    s.queuedTrackId s t.tick h h.nodup (fun _ hj => hj) (refl k name s)).2
  exact hloop.update hk _

end Elsewhere

/-! ### The orders of a step -/

theorem doDelOrder_terms (hot : s.engOrderTrack[id]? = some ot) :
    ∃ ot' m, terms ot' = terms ot ∧ m.msgType ≠ ods .execution ∧ m.localId = (id : Int) ∧
      s.doDelOrder id =
        { s with
            engOrderTrack := s.engOrderTrack.set id ot'
            rtnMsgQueue := s.rtnMsgQueue ++ [m]
            queuedTrackId := s.queuedTrackId.filter (· ≠ id) } := by
  unfold CTDHelperFake.doDelOrder
  dsimp only
  rw [CTDHelperFake.getEngOrderTrack_eq hot]
  split
  · refine ⟨{ ot with status := ot.status ||| ods .cancelReject },
      { fillRtnMsg ot id with msgType := ods .cancelReject }, rfl, ?_, rfl, rfl⟩
    dsimp only
    decide
  · refine ⟨{ ot with status := ot.status ||| ods .canceled },
      { fillRtnMsg ot id with msgType := ods .canceled, vol := ot.vol - ot.volTraded }, rfl, ?_, rfl,
      rfl⟩
    dsimp only
    decide

theorem Elsewhere.del (hid : id < s.engOrderTrack.length) : Elsewhere k name s (s.doDelOrder id) := by
  obtain ⟨ot', m, hterms, hm, -, heq⟩ := doDelOrder_terms (List.getElem?_eq_getElem hid)
  rw [heq]
  refine ⟨rfl, .of_terms (terms_set (List.getElem?_eq_getElem hid) hterms), [m], rfl, ?_⟩
  intro x hx he
  rw [List.mem_singleton.mp hx] at he
  exact absurd he hm

theorem onTick_terms (h : FakeOk names hash s) (t : TickData) :
    (s.onTick t).engOrderTrack.map terms = s.engOrderTrack.map terms :=
  (tickLoop_ind (P := fun s' _ => s'.engOrderTrack.map terms = s.engOrderTrack.map terms)
    (fun _ tick _ _ hs' hq _ _ he => (matchQueued_terms hs' hq tick).trans he)
    s.queuedTrackId s t.tick h h.nodup (fun _ hj => hj) rfl).2

theorem sendOrder_terms (h : FakeOk names hash s) {a : OrderArgs}
    (hent : Dir.Valid a.dir → FakeOk names hash (s.entered a)) :
    (s.sendOrder a).engOrderTrack.map terms =
      s.engOrderTrack.map terms ++ [(a.instr, a.dir, a.vol, a.price)] := by
  by_cases hvalid : Dir.Valid a.dir
  · have hterms : (s.entered a).engOrderTrack.map terms =
        s.engOrderTrack.map terms ++ [(a.instr, a.dir, a.vol, a.price)] := List.map_append
    rw [CTDHelperFake.sendOrder_valid hvalid]
    cases s.lastTickWall a.instrHash with
    | none => exact hterms
    | some tick => exact (matchQueued_terms (hent hvalid) (h.entered_queued a) tick).trans hterms
  · rw [CTDHelperFake.sendOrder_invalid hvalid]
    exact List.map_append

/-! ## The messages since a tick -/

/-- Behind `base` there are the messages since tick `t`, of which `w` is left. -/
def SinceTick (t : TickData) (base : List RtnMsg) (w : TTick) (s : CTDHelperFake) : Prop :=
  ∃ new, s.rtnMsgQueue = base ++ new ∧ Against t new s.engOrderTrack w

namespace SinceTick

variable {t : TickData} {base : List RtnMsg} {w : TTick}

theorem elsewhere (h : SinceTick t base w s) (he : Elsewhere k t.instrStr s s') :
    SinceTick t base w s' := by
  obtain ⟨new, hnew, hagainst⟩ := h
  obtain ⟨ms, hms, hother⟩ := he.messages
  refine ⟨new ++ ms, ?_, (hagainst.others hother).keep he.orders⟩
  rw [hms, hnew, List.append_assoc]

/-- A match of an order of the instrument. -/
theorem matchQueued (h : SinceTick t base w s) (hs : FakeOk names hash s) (hq : id ∈ s.queuedTrackId)
    (hot : s.engOrderTrack[id]? = some ot) (hinstr : ot.instr = t.instrStr) :
    SinceTick t base (s.matchQueued id w).2 (s.matchQueued id w).1 := by
  obtain ⟨new, hnew, hagainst⟩ := h
  have hkeep := KeepsOrders.of_terms (matchQueued_terms hs hq w)
  have hleft := ((hs.orders id ot hot).queued_iff.mp hq).2.1
  rcases CTDHelperFake.matchQueued_spec hot hleft w with
    heq | ⟨trade, price, -, -, hlots, hprice, heq⟩
  · rw [heq]
    exact ⟨new, hnew, hagainst⟩
  · rw [heq] at hkeep ⊢
    refine ⟨new ++ [CTDHelperFake.execution ot id trade price], ?_,
      (hagainst.trade hot hprice.valid hinstr hlots hprice).keep hkeep⟩
    unfold CTDHelperFake.traded
    dsimp only
    rw [hnew, List.append_assoc]

end SinceTick

/-- The state since tick `t`, whose messages are those behind `base`. -/
def TickOk (hash : String → Hash) (t : TickData) (base : List RtnMsg) (s : CTDHelperFake) : Prop :=
  ∃ w, s.lastTickWall (hash t.instrStr) = some w ∧ SinceTick t base w s

/-- No tick of the instrument yet. -/
structure NoTick (hash : String → Hash) (name : String) (s : CTDHelperFake) : Prop where
  wall : s.lastTickWall (hash name) = none
  messages : ∀ m ∈ s.rtnMsgQueue, m.msgType = ods .execution → m.instr ≠ name

theorem TickOk.elsewhere {t : TickData} {base : List RtnMsg} (h : TickOk hash t base s)
    (he : Elsewhere (hash t.instrStr) t.instrStr s s') : TickOk hash t base s' := by
  obtain ⟨w, hw, hsince⟩ := h
  exact ⟨w, by rw [he.wall, hw], hsince.elsewhere he⟩

theorem NoTick.elsewhere (h : NoTick hash name s) (he : Elsewhere (hash name) name s s') :
    NoTick hash name s' := by
  obtain ⟨ms, hms, hother⟩ := he.messages
  refine ⟨by rw [he.wall, h.wall], fun m hm => ?_⟩
  rw [hms] at hm
  rcases List.mem_append.mp hm with hm | hm
  · exact h.messages m hm
  · exact hother m hm

theorem TickOk.onTick (h : FakeOk names hash s) {t : TickData} (hvol : 0 ≤ t.askVol ∧ 0 ≤ t.bidVol)
    (hhash : t.instrHash = hash t.instrStr) : TickOk hash t s.rtnMsgQueue (s.onTick t) := by
  have hstart : SinceTick t s.rtnMsgQueue t.tick s :=
    ⟨[], (List.append_nil _).symm, .start hvol _⟩
  have hloop := (tickLoop_ind (P := fun s' w => SinceTick t s.rtnMsgQueue w s')
    (fun s' w id ot hs' hq hot hinstr hw => hw.matchQueued hs' hq hot hinstr)
    s.queuedTrackId s t.tick h h.nodup (fun _ hj => hj) hstart).2
  refine ⟨_, ?_, hloop⟩
  unfold CTDHelperFake.onTick
  dsimp only
  rw [hhash, Function.update_self]

/-- An order of the instrument meets what is left of the tick. -/
theorem TickOk.sendOrder {t : TickData} {base : List RtnMsg} (h : TickOk hash t base s)
    (hs : FakeOk names hash s) {a : OrderArgs} (hent : FakeOk names hash (s.entered a))
    (hvalid : Dir.Valid a.dir) (hinstr : a.instr = t.instrStr) (hhash : a.instrHash = hash a.instr) :
    TickOk hash t base (s.sendOrder a) := by
  obtain ⟨w, hw, hsince⟩ := h
  obtain ⟨ot, hot, hoti⟩ := hs.entered_get a
  have hmatch := (hsince.elsewhere (Elsewhere.entered (k := hash t.instrStr) a s)).matchQueued hent
    (hs.entered_queued a) hot (hoti.trans hinstr)
  rw [CTDHelperFake.sendOrder_valid hvalid, hhash, hinstr, hw]
  exact ⟨_, Function.update_self _ _ _, hmatch⟩

/-- Nothing is left to match an order against. -/
theorem NoTick.sendOrder (h : NoTick hash name s) {a : OrderArgs} (hvalid : Dir.Valid a.dir)
    (hinstr : a.instr = name) (hhash : a.instrHash = hash a.instr) :
    NoTick hash name (s.sendOrder a) := by
  rw [CTDHelperFake.sendOrder_valid hvalid, hhash, hinstr, h.wall]
  exact h.elsewhere (.entered a s)

/-! ## Runs -/

inductive FakeCall
  | send (a : OrderArgs)
  | del (id : Nat)
  | tick (t : TickData)

namespace FakeCall

def apply (s : CTDHelperFake) : FakeCall → CTDHelperFake
  | send a => s.sendOrder a
  | del id => s.doDelOrder id
  | tick t => s.onTick t

def IsTick (name : String) : FakeCall → Prop
  | tick t => t.instrStr = name
  | send _ | del _ => False

instance (name : String) : DecidablePred (IsTick name)
  | tick t => inferInstanceAs (Decidable (t.instrStr = name))
  | send _ | del _ => inferInstanceAs (Decidable False)

/-- The order of a call. -/
def terms? : FakeCall → Option (String × Dir × Int × ℚ)
  | send a => some (a.instr, a.dir, a.vol, a.price)
  | del _ | tick _ => none

end FakeCall

/-- The calls of a client: orders of at least one lot, ids that have been given
out, quotes that are not negative, and the hash of the instrument. -/
def fakeSys (names : List String) (hash : String → Hash) : Sys CTDHelperFake FakeCall where
  start s := s = {}
  ok s
    | .send a => 1 ≤ a.vol ∧ a.instr ∈ names ∧ a.instrHash = hash a.instr
    | .del id => id < s.engOrderTrack.length
    | .tick t => (0 ≤ t.askVol ∧ 0 ≤ t.bidVol) ∧ t.instrStr ∈ names ∧ t.instrHash = hash t.instrStr
  next := FakeCall.apply

instance (names : List String) (hash : String → Hash) :
    ∀ s e, Decidable ((fakeSys names hash).ok s e)
  | _, .send a => inferInstanceAs (Decidable (1 ≤ a.vol ∧ a.instr ∈ names ∧ _))
  | s, .del id => inferInstanceAs (Decidable (id < s.engOrderTrack.length))
  | _, .tick t => inferInstanceAs (Decidable ((0 ≤ t.askVol ∧ 0 ≤ t.bidVol) ∧ t.instrStr ∈ names ∧ _))

def fakeRun (es : List FakeCall) : CTDHelperFake := es.foldl FakeCall.apply {}

/-- What the calls `mid` have added to the messages behind the calls `pre`. -/
def messagesOf (pre mid : List FakeCall) : List RtnMsg :=
  (fakeRun (pre ++ mid)).rtnMsgQueue.drop (fakeRun pre).rtnMsgQueue.length

theorem fakeOk_step (s : CTDHelperFake) (e : FakeCall) (h : FakeOk names hash s)
    (ha : (fakeSys names hash).ok s e) : FakeOk names hash (e.apply s) := by
  cases e with
  | send a => exact h.send ha.1 ha.2.1 ha.2.2
  | del id => exact h.del ha
  | tick t => exact h.tick t

theorem fakeOk_run {es : List FakeCall} (ha : (fakeSys names hash).Admits {} es) :
    FakeOk names hash (fakeRun es) :=
  (fakeSys names hash).invariant_run fakeOk_step {} es .empty ha

theorem fakeRun_concat (es : List FakeCall) (e : FakeCall) :
    fakeRun (es ++ [e]) = e.apply (fakeRun es) := by
  unfold fakeRun
  rw [List.foldl_append]
  rfl

/-- The exchange has the orders of the run. -/
theorem fakeRun_terms {es : List FakeCall} (ha : (fakeSys names hash).Admits {} es) :
    (fakeRun es).engOrderTrack.map terms = es.filterMap FakeCall.terms? := by
  induction es using List.reverseRecOn with
  | nil => rfl
  | append_singleton es e ih =>
    obtain ⟨hes, he, -⟩ := ((fakeSys names hash).admits_append {} es [e]).mp ha
    have hok := fakeOk_run hes
    rw [fakeRun_concat, List.filterMap_append, ← ih hes]
    cases e with
    | send a => exact sendOrder_terms hok (fun hvalid => hok.entered he.1 he.2.1 he.2.2 hvalid)
    | del id =>
      have hid := List.getElem?_eq_getElem (show id < (fakeRun es).engOrderTrack.length from he)
      obtain ⟨ot', m, hterms, -, -, heq⟩ := doDelOrder_terms hid
      rw [show FakeCall.apply (fakeRun es) (.del id) = (fakeRun es).doDelOrder id from rfl, heq]
      exact (terms_set hid hterms).trans (List.append_nil _).symm
    | tick t => exact (onTick_terms hok t).trans (List.append_nil _).symm

/-- A call that is no tick of the instrument: it leaves the instrument alone, or
sends an order of it. -/
theorem call_cases (hinj : ∀ a ∈ names, ∀ b ∈ names, hash a = hash b → a = b) (hname : name ∈ names)
    {e : FakeCall} (h : FakeOk names hash s) (ha : (fakeSys names hash).ok s e)
    (hno : ¬e.IsTick name) :
    Elsewhere (hash name) name s (e.apply s) ∨
      ∃ a, e = .send a ∧ Dir.Valid a.dir ∧ a.instr = name ∧ a.instrHash = hash a.instr ∧
        FakeOk names hash (s.entered a) := by
  cases e with
  | send a =>
    obtain ⟨hvol, hmem, hhash⟩ := ha
    have hent : Dir.Valid a.dir → FakeOk names hash (s.entered a) :=
      fun hvalid => h.entered hvol hmem hhash hvalid
    by_cases hinstr : a.instr = name
    · by_cases hvalid : Dir.Valid a.dir
      · exact .inr ⟨a, rfl, hvalid, hinstr, hhash, hent hvalid⟩
      · left
        simp only [FakeCall.apply]
        rw [CTDHelperFake.sendOrder_invalid hvalid]
        exact .refused a s
    · refine .inl (.send h hent hinstr fun hk => hinstr ?_)
      exact hinj _ hmem _ hname (hhash ▸ hk.symm)
  | del id => exact .inl (.del ha)
  | tick t =>
    obtain ⟨-, hmem, hhash⟩ := ha
    refine .inl (.tick h hno fun hk => hno ?_)
    exact hinj _ hmem _ hname (hhash ▸ hk.symm)

theorem tickOk_run (hinj : ∀ a ∈ names, ∀ b ∈ names, hash a = hash b → a = b)
    {pre mid : List FakeCall} {t : TickData}
    (ha : (fakeSys names hash).Admits {} (pre ++ .tick t :: mid))
    (hno : ∀ e ∈ mid, ¬e.IsTick t.instrStr) :
    TickOk hash t (fakeRun pre).rtnMsgQueue (fakeRun (pre ++ .tick t :: mid)) := by
  induction mid using List.reverseRecOn with
  | nil =>
    obtain ⟨hpre, ht, -⟩ := ((fakeSys names hash).admits_append {} pre [.tick t]).mp ha
    rw [fakeRun_concat]
    exact .onTick (fakeOk_run hpre) ht.1 ht.2.2
  | append_singleton mid e ih =>
    have hassoc : pre ++ .tick t :: (mid ++ [e]) = (pre ++ .tick t :: mid) ++ [e] := by simp
    rw [hassoc] at ha ⊢
    obtain ⟨hmid, he, -⟩ := ((fakeSys names hash).admits_append {} _ [e]).mp ha
    have hok := fakeOk_run hmid
    have hname : t.instrStr ∈ names := by
      obtain ⟨-, ht, -⟩ := ((fakeSys names hash).admits_append {} pre (.tick t :: mid)).mp hmid
      exact ht.2.1
    have hsince := ih hmid fun x hx => hno x (List.mem_append_left [e] hx)
    rw [fakeRun_concat]
    rcases call_cases hinj hname hok he (hno e (by simp)) with
      helse | ⟨a, rfl, hvalid, hinstr, hhash, hent⟩
    · exact hsince.elsewhere helse
    · exact hsince.sendOrder hok hent hvalid hinstr hhash

theorem noTick_run (hinj : ∀ a ∈ names, ∀ b ∈ names, hash a = hash b → a = b) (hname : name ∈ names)
    {es : List FakeCall} (ha : (fakeSys names hash).Admits {} es)
    (hno : ∀ e ∈ es, ¬e.IsTick name) : NoTick hash name (fakeRun es) := by
  induction es using List.reverseRecOn with
  | nil => exact ⟨rfl, fun _ hm => nomatch hm⟩
  | append_singleton es e ih =>
    obtain ⟨hes, he, -⟩ := ((fakeSys names hash).admits_append {} es [e]).mp ha
    have hnone := ih hes fun x hx => hno x (List.mem_append_left [e] hx)
    rw [fakeRun_concat]
    rcases call_cases hinj hname (fakeOk_run hes) he (hno e (by simp)) with
      helse | ⟨a, rfl, hvalid, hinstr, hhash, -⟩
    · exact hnone.elsewhere helse
    · exact hnone.sendOrder hvalid hinstr hhash

/-- A run has no tick of an instrument, or a last one. -/
theorem last_tick (name : String) (es : List FakeCall) :
    (∀ e ∈ es, ¬e.IsTick name) ∨
      ∃ pre t mid, es = pre ++ .tick t :: mid ∧ t.instrStr = name ∧ ∀ e ∈ mid, ¬e.IsTick name := by
  induction es using List.reverseRecOn with
  | nil => exact .inl fun _ he => nomatch he
  | append_singleton es e ih =>
    by_cases he : e.IsTick name
    · cases e with
      | tick t => exact .inr ⟨es, t, [], rfl, he, fun _ hx => nomatch hx⟩
      | send a => exact he.elim
      | del id => exact he.elim
    · have hconcat : ∀ l : List FakeCall, (∀ x ∈ l, ¬x.IsTick name) →
          ∀ x ∈ l ++ [e], ¬x.IsTick name := by
        intro l hl x hx
        rcases List.mem_append.mp hx with hx | hx
        · exact hl x hx
        · rw [List.mem_singleton.mp hx]
          exact he
      rcases ih with hno | ⟨pre, t, mid, rfl, ht, hno⟩
      · exact .inl (hconcat es hno)
      · exact .inr ⟨pre, t, mid ++ [e], by simp, ht, hconcat mid hno⟩

/-! ## Volume is conserved -/

/-- An order and its messages. -/
structure OrderConserved (ms : List RtnMsg) (id : Nat) (ot : OrderTrack) : Prop where
  executed : execVol id ms = ot.volTraded
  le : ot.volTraded ≤ ot.vol
  canceled : ∀ m ∈ cancels id ms, m.vol = ot.vol - ot.volTraded
  canceled_once : (cancels id ms).length ≤ 1
  ends_once : EndsOnce id ot.vol ms

/-- A tick and the messages between it and the next of its instrument. -/
structure TickConserved (t : TickData) (new : List RtnMsg) (eng : List OrderTrack) : Prop where
  lots : ∀ dir, Dir.Valid dir → against t.instrStr dir new ≤ t.tick.lotsFor dir
  price : ∀ m ∈ new, m.msgType = ods .execution → m.instr = t.instrStr →
    ∃ (id : Nat) (ot : OrderTrack), m.localId = id ∧ eng[id]? = some ot ∧ m.dir = ot.dir ∧
      PriceBetween ot.dir (t.tick.quote ot.dir) ot.price m.price

/-- The instrument of `t` has no tick among the calls. -/
def UntilNext (t : TickData) (mid : List FakeCall) : Prop := ∀ e ∈ mid, ¬e.IsTick t.instrStr

/-- Volume is conserved along a run. -/
structure VolumeConserved (es : List FakeCall) : Prop where
  sent : (fakeRun es).engOrderTrack.map terms = es.filterMap FakeCall.terms?
  owned : ∀ m ∈ (fakeRun es).rtnMsgQueue, ∃ (id : Nat) (ot : OrderTrack),
    (fakeRun es).engOrderTrack[id]? = some ot ∧ m.localId = id ∧ m.instr = ot.instr ∧ m.dir = ot.dir
  orders : ∀ (id : Nat) (ot : OrderTrack), (fakeRun es).engOrderTrack[id]? = some ot →
    OrderConserved (fakeRun es).rtnMsgQueue id ot
  queued : ∀ id, id ∈ (fakeRun es).queuedTrackId ↔
    ∃ ot, (fakeRun es).engOrderTrack[id]? = some ot ∧ Dir.Valid ot.dir ∧ ot.volTraded < ot.vol ∧
      cancels id (fakeRun es).rtnMsgQueue = []
  ticks : ∀ pre t mid post, es = pre ++ .tick t :: (mid ++ post) → UntilNext t mid →
    TickConserved t (messagesOf pre (.tick t :: mid)) (fakeRun (pre ++ .tick t :: mid)).engOrderTrack
  executions : ∀ m ∈ (fakeRun es).rtnMsgQueue, m.msgType = ods .execution →
    ∃ pre t mid post, es = pre ++ .tick t :: (mid ++ post) ∧ t.instrStr = m.instr ∧
      UntilNext t mid ∧ m ∈ messagesOf pre (.tick t :: mid)

theorem FakeOk.order_conserved (h : FakeOk names hash s) (hot : s.engOrderTrack[id]? = some ot) :
    OrderConserved s.rtnMsgQueue id ot := by
  have hok := h.orders id ot hot
  exact ⟨hok.executed, hok.le, hok.cancel_vol, hok.cancel_once, hok.ends_once⟩

theorem FakeOk.queued_iff (h : FakeOk names hash s) :
    id ∈ s.queuedTrackId ↔
      ∃ ot, s.engOrderTrack[id]? = some ot ∧ Dir.Valid ot.dir ∧ ot.volTraded < ot.vol ∧
        cancels id s.rtnMsgQueue = [] := by
  constructor
  · intro hq
    obtain ⟨ot, hot, hok⟩ := h.get hq
    exact ⟨ot, hot, hok.queued_iff.mp hq⟩
  · rintro ⟨ot, hot, hopen⟩
    exact (h.orders id ot hot).queued_iff.mpr hopen

/-- The messages since a tick. -/
theorem tick_run (hinj : ∀ a ∈ names, ∀ b ∈ names, hash a = hash b → a = b)
    {pre mid : List FakeCall} {t : TickData}
    (ha : (fakeSys names hash).Admits {} (pre ++ .tick t :: mid)) (hno : UntilNext t mid) :
    (fakeRun (pre ++ .tick t :: mid)).rtnMsgQueue =
        (fakeRun pre).rtnMsgQueue ++ messagesOf pre (.tick t :: mid) ∧
      TickConserved t (messagesOf pre (.tick t :: mid))
        (fakeRun (pre ++ .tick t :: mid)).engOrderTrack := by
  obtain ⟨w, -, new, hnew, hagainst⟩ := tickOk_run hinj ha hno
  have heq : messagesOf pre (.tick t :: mid) = new := by
    unfold messagesOf
    rw [hnew, List.drop_left]
  rw [heq]
  refine ⟨hnew, fun dir hdir => ?_, hagainst.price⟩
  have hlots := hagainst.lots dir hdir
  have hleft := hagainst.nonneg dir
  omega

theorem execution_run (hinj : ∀ a ∈ names, ∀ b ∈ names, hash a = hash b → a = b)
    {es : List FakeCall} (ha : (fakeSys names hash).Admits {} es) {m : RtnMsg}
    (hm : m ∈ (fakeRun es).rtnMsgQueue) (hexec : m.msgType = ods .execution) :
    ∃ pre t mid post, es = pre ++ .tick t :: (mid ++ post) ∧ t.instrStr = m.instr ∧
      UntilNext t mid ∧ m ∈ messagesOf pre (.tick t :: mid) := by
  induction hlen : es.length using Nat.strong_induction_on generalizing es with
  | _ n ih =>
    obtain ⟨id, ot, hot, -, hinstr, -⟩ := (fakeOk_run ha).messages m hm
    have hname : m.instr ∈ names := hinstr ▸ ((fakeOk_run ha).named id ot hot).1
    rcases last_tick m.instr es with hno | ⟨pre, t, mid, rfl, ht, hno⟩
    · exact absurd rfl ((noTick_run hinj hname ha hno).messages m hm hexec)
    · have huntil : UntilNext t mid := by
        unfold UntilNext
        rw [ht]
        exact hno
      rw [(tick_run hinj ha huntil).1] at hm
      rcases List.mem_append.mp hm with hm | hm
      · have hpre := (((fakeSys names hash).admits_append {} pre _).mp ha).1
        have hlt : pre.length < n := by
          rw [← hlen]
          simp
        obtain ⟨pre', t', mid', post, rfl, hsame, huntil', hmem⟩ := ih pre.length hlt hpre hm rfl
        exact ⟨pre', t', mid', post ++ .tick t :: mid, by simp, hsame, huntil', hmem⟩
      · exact ⟨pre, t, mid, [], by simp, ht, huntil, hm⟩

theorem volume_conserved (hinj : ∀ a ∈ names, ∀ b ∈ names, hash a = hash b → a = b)
    (es : List FakeCall) (ha : (fakeSys names hash).Admits {} es) : VolumeConserved es where
  sent := fakeRun_terms ha
  owned := (fakeOk_run ha).messages
  orders _ _ hot := (fakeOk_run ha).order_conserved hot
  queued _ := (fakeOk_run ha).queued_iff
  ticks pre t mid post heq huntil := by
    have hassoc : es = (pre ++ .tick t :: mid) ++ post := by simp [heq]
    rw [hassoc] at ha
    exact (tick_run hinj (((fakeSys names hash).admits_append {} _ post).mp ha).1 huntil).2
  executions _ hm hexec := execution_run hinj ha hm hexec

/-- Two orders share a tick of 5 lots; what is left of the second is cancelled. -/
def sharedTick : List FakeCall :=
  [.tick { instrHash := 1, instrStr := "rb", lastPx := 100, askPx := 100, askVol := 5, bidPx := 99
           bidVol := 4 },
    .send { instr := "rb", price := 102, vol := 3, dir := .buy, instrHash := 1 },
    .tick { instrHash := 2, instrStr := "cu", lastPx := 70, askPx := 71, askVol := 1, bidPx := 70
            bidVol := 1 },
    .send { instr := "rb", price := 101, vol := 4, dir := .buy, instrHash := 1 },
    .del 1]

theorem volume_conserved_shared :
    VolumeConserved sharedTick ∧
      execVol 0 (fakeRun sharedTick).rtnMsgQueue = 3 ∧ execVol 1 (fakeRun sharedTick).rtnMsgQueue = 2 ∧
        ((cancels 1 (fakeRun sharedTick).rtnMsgQueue).map (·.vol)) = [2] :=
  ⟨@volume_conserved ["rb", "cu"] (fun name => if name = "rb" then 1 else 2) (by decide) sharedTick
      (by decide +kernel),
    by decide +kernel, by decide +kernel, by decide +kernel⟩

end NatFramework.Td
