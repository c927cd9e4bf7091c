import Mathlib.Data.List.Induction
import NatFramework.Signal.Relay

/-!
# The stream stays framed

The proof of `relayed_of_run`. Each direction of a connection is a stream of
packages: what one side has queued is `Queued`, and where the other side stands
in it is `Reading`. `Inv` says so of both directions, beside what the packages
read so far have done: the readers of the server, the pages of the client.
-/
namespace NatFramework.Signal

open Lib

/-! ## Packages -/

@[simp] theorem length_saHead (cmd : UInt8) (len : Nat) : (saHead cmd len).length = 7 := by
  simp [saHead]

@[simp] theorem length_dataHead (i : Nat) (f : Frame) : (dataHead i f).length = 11 := by
  simp [dataHead]

@[simp] theorem length_requestHead (names : List Name) : (requestHead names).length = 11 := by
  simp [requestHead]

@[simp] theorem length_dataPkg (i : Nat) (f : Frame) : (dataPkg i f).length = dataSize f := by
  simp [dataPkg, dataSize]

theorem dataSize_lt (f : Frame) : dataSize f < 2 ^ 32 := by
  have := f.fits
  unfold dataSize
  omega

theorem cmdOf_saHead (cmd : UInt8) (len : Nat) (body : List UInt8) :
    cmdOf (saHead cmd len ++ body) = cmd := rfl

/-- A head that the read buffer has room for is accepted. -/
theorem wellFormed_saHead {cmd : UInt8} {len size : Nat} {body : List UInt8}
    (hbody : body.length = len - 7) (hlen : len < 2 ^ 32) (hsize : len ≤ size) :
    CService.WellFormed (processHead size) 7 (saHead cmd len ++ body) := by
  refine ⟨len, ?_, ?_⟩
  · rw [List.take_left' (length_saHead cmd len)]
    have hfield : ((saHead cmd len).drop 3).take 4 = leBytes 4 len :=
      List.take_of_length_le (length_leBytes 4 len).le
    unfold processHead
    simp only [hfield]
    rw [ofLe_leBytes_of_lt (by omega), if_pos ⟨rfl, rfl, hsize⟩]
  · rw [List.length_append, length_saHead]
    omega

theorem wellFormed_dataPkg {i size : Nat} {f : Frame} (h : dataSize f ≤ size) :
    CService.WellFormed (processHead size) 7 (dataPkg i f) := by
  unfold dataPkg dataHead
  rw [List.append_assoc]
  refine wellFormed_saHead ?_ (dataSize_lt f) h
  simp only [List.length_append, length_leBytes, dataSize]
  omega

theorem wellFormed_replyPkg (size : Nat) : CService.WellFormed (processHead size) 7 replyPkg := by
  have h := @wellFormed_saHead SACMD_REP_HEATBEAT 0 size [] rfl
    (by decide) (Nat.zero_le _)
  rwa [List.append_nil] at h

theorem wellFormed_heartPkg (size : Nat) : CService.WellFormed (processHead size) 7 heartPkg := by
  have h := @wellFormed_saHead SACMD_REQ_HEATBEAT 0 size [] rfl
    (by decide) (Nat.zero_le _)
  rwa [List.append_nil] at h

theorem wellFormed_requestPkg {names : List Name} {size : Nat} (h : requestLen names ≤ size)
    (hsize : size < 2 ^ 32) : CService.WellFormed (processHead size) 7 (requestPkg names) := by
  unfold requestPkg requestHead
  rw [List.append_assoc]
  refine wellFormed_saHead ?_ (by omega) h
  simp only [List.length_append, length_leBytes, requestLen]
  omega

/-- The field and the rest behind a head. -/
theorem fieldOf_saHead (cmd : UInt8) (len : Nat) {k : Nat} (hk : k < 2 ^ 32) (body : List UInt8) :
    fieldOf (saHead cmd len ++ (leBytes 4 k ++ body)) = k ∧
      (saHead cmd len ++ (leBytes 4 k ++ body)).drop 11 = body := by
  have hdrop : (saHead cmd len ++ (leBytes 4 k ++ body)).drop 7 = leBytes 4 k ++ body :=
    List.drop_left' (length_saHead cmd len)
  constructor
  · unfold fieldOf
    rw [hdrop, List.take_left' (length_leBytes 4 k), ofLe_leBytes_of_lt (by omega)]
  · rw [show 11 = 7 + 4 from rfl, ← List.drop_drop, hdrop, List.drop_left' (length_leBytes 4 k)]

/-! ## Names -/

theorem cString_append (n : Name) (bs : List UInt8) : CSignalServer.cString (n.1 ++ 0 :: bs) = n := by
  apply Subtype.ext
  unfold CSignalServer.cString
  simp only
  rw [List.takeWhile_append_of_pos]
  · simp
  · intro b hb
    refine decide_eq_true fun h => n.2 ?_
    subst h
    exact hb

/-- The names are read as they were sent. -/
theorem sigNames_nameBytes (names : List Name) (bs : List UInt8) :
    CSignalServer.sigNames names.length (nameBytes names ++ bs) = names := by
  induction names with
  | nil => rfl
  | cons n names ih =>
    have hsplit : nameBytes (n :: names) ++ bs = n.1 ++ 0 :: (nameBytes names ++ bs) := by
      simp [nameBytes]
    rw [hsplit, List.length_cons, CSignalServer.sigNames, cString_append]
    have hdrop : (n.1 ++ 0 :: (nameBytes names ++ bs)).drop (n.1.length + 1) = nameBytes names ++ bs := by
      rw [← List.drop_drop, List.drop_left]
      rfl
    rw [hdrop, ih]

theorem length_lt_of_requestLen {names : List Name} (h : requestLen names < 4096) :
    names.length < 2 ^ 31 := by
  have hle : names.length ≤ (nameBytes names).length := by
    clear h
    induction names with
    | nil => exact Nat.le_refl _
    | cons n names ih =>
      simp only [nameBytes, List.flatMap_cons, List.length_append, List.length_cons,
        List.length_nil] at ih ⊢
      omega
  unfold requestLen at h
  omega

/-- Each name gets a reader, in the order of the request. -/
theorem readers_foldl_addReader (names : List Name) (s : CSignalServer)
    (h : (s.readers.map (·.name) ++ names).Nodup) :
    (names.foldl CSignalServer.addReader s).readers.map (·.name) = s.readers.map (·.name) ++ names := by
  induction names generalizing s with
  | nil => simp
  | cons n names ih =>
    have hnew : n ∉ s.readers.map (·.name) := fun hmem =>
      (List.nodup_append.mp h).2.2 n hmem n List.mem_cons_self rfl
    have hany : s.readers.any (fun r => r.name = n) = false := by
      rw [List.any_eq_false]
      intro r hr hrn
      exact hnew (List.mem_map.mpr ⟨r, hr, of_decide_eq_true hrn⟩)
    have hadd : (s.addReader n).readers.map (·.name) = s.readers.map (·.name) ++ [n] := by
      simp [CSignalServer.addReader, hany]
    rw [List.foldl_cons, ih, hadd, List.append_assoc]
    · rfl
    · rw [hadd, List.append_assoc]
      exact h

/-- What `addReader` leaves alone. -/
theorem foldl_addReader (names : List Name) (s : CSignalServer) :
    (names.foldl CSignalServer.addReader s).toCService = s.toCService ∧
      (names.foldl CSignalServer.addReader s).history = s.history ∧
      (names.foldl CSignalServer.addReader s).closed = s.closed := by
  induction names generalizing s with
  | nil => exact ⟨rfl, rfl, rfl⟩
  | cons n names ih =>
    have hadd : (s.addReader n).toCService = s.toCService ∧ (s.addReader n).history = s.history ∧
        (s.addReader n).closed = s.closed := by
      unfold CSignalServer.addReader
      split <;> exact ⟨rfl, rfl, rfl⟩
    obtain ⟨h1, h2, h3⟩ := ih (s.addReader n)
    exact ⟨h1.trans hadd.1, h2.trans hadd.2.1, h3.trans hadd.2.2⟩

/-! ## A turn of the server -/

namespace CSignalServer

variable {s : CSignalServer} {i : Nat}

/-- The readers and the history after a turn, whatever was queued. -/
theorem tryReadTurn_eq (i : Nat) (s : CSignalServer) :
    ∃ c : CService, CService.SameReading c s.toCService ∧ c.writeBuf.size = s.writeBuf.size ∧
      (s.tryReadTurn i = { s with toCService := c } ∨
        ∃ f, s.curFrame i = some f ∧
          (dataSize f ≤ s.writeBuf.left ∨ s.writeBuf.size < dataSize f) ∧
          s.tryReadTurn i = { s with toCService := c }.passFrame i f) := by
  unfold tryReadTurn
  cases hf : s.curFrame i with
  | none => exact ⟨s.toCService, CService.SameReading.refl _, rfl, Or.inl rfl⟩
  | some f =>
    simp only
    by_cases hroom : s.writeBuf.left ≥ dataSize f
    · rw [if_pos hroom]
      refine ⟨_, (CService.sameReading_sendData _ _).trans (CService.sameReading_sendData _ _), ?_,
        Or.inr ⟨f, rfl, Or.inl hroom, rfl⟩⟩
      rw [CService.size_sendData, CService.size_sendData]
    · rw [if_neg hroom]
      by_cases hbig : s.writeBuf.size < dataSize f
      · rw [if_pos hbig]
        exact ⟨s.toCService, CService.SameReading.refl _, rfl, Or.inr ⟨f, rfl, Or.inr hbig, rfl⟩⟩
      · rw [if_neg hbig]
        exact ⟨s.toCService, CService.SameReading.refl _, rfl, Or.inl rfl⟩

theorem names_passFrame (i : Nat) (f : Frame) (s : CSignalServer) :
    (s.passFrame i f).readers.map (·.name) = s.readers.map (·.name) := by
  unfold passFrame
  apply List.ext_getElem?
  intro j
  simp only [List.getElem?_map, List.getElem?_modify]
  cases s.readers[j]? with
  | none => rfl
  | some r => by_cases hij : i = j <;> simp [hij]

theorem lt_of_curFrame {f : Frame} (h : s.curFrame i = some f) : i < s.readers.length := by
  unfold curFrame at h
  obtain ⟨r, hr, -⟩ := Option.bind_eq_some_iff.mp h
  exact (List.getElem?_eq_some_iff.mp hr).1

end CSignalServer

namespace Relay

open CService

theorem due_passFrame (i : Nat) (f : Frame) (s : CSignalServer) :
    due (s.passFrame i f) =
      due s ++ if dataSize f ≤ s.writeBuf.size then [dataPkg i f] else [] := by
  simp only [due, CSignalServer.passFrame, List.filterMap_append]
  congr 1
  by_cases h : dataSize f ≤ s.writeBuf.size <;> simp [pkgOf, h]

/-- A frame with room to spare is queued whole, head and payload. -/
theorem queued_frame {c : CService} {bytes : List UInt8} {f : Frame} (i : Nat)
    (hq : c.Queued bytes) (hroom : dataSize f < c.writeBuf.left)
    (hcount : CBuffer.Counts c.writeBuf.size (bytes.length + dataSize f)) :
    (((c.sendData (dataHead i f)).1.sendData f.payload).1).Queued (bytes ++ dataPkg i f) := by
  have hlen : (dataHead i f).length = 11 := length_dataHead i f
  have hne : dataHead i f ≠ [] := fun h => by rw [h] at hlen; cases hlen
  unfold dataSize at hroom hcount
  obtain ⟨-, hq1⟩ := hq.sendData hne (by omega) (hcount.mono (by omega))
  have hleft : (c.sendData (dataHead i f)).1.writeBuf.left = c.writeBuf.left - 11 := by
    have h0 := hq.length
    have h1 := hq1.length
    rw [out_sendData, List.length_append, hlen] at h1
    rw [hq1.left, hq.left, size_sendData]
    omega
  unfold dataPkg
  rw [← List.append_assoc]
  by_cases hnil : f.payload = []
  · rw [hnil, sendData_nil, List.append_nil]
    exact hq1
  · refine (hq1.sendData hnil (by omega) ?_).2
    rw [size_sendData, List.length_append, hlen, Nat.add_assoc]
    exact hcount

/-- A frame that fills the buffer to the last byte is not: its payload, or all of
it where that is empty, is dropped. -/
theorem not_queued_of_left_eq {s : CSignalServer} {i : Nat} {f : Frame}
    (hq : s.toCService.Queued (due s).flatten) (hf : s.curFrame i = some f)
    (hleft : s.writeBuf.left = dataSize f)
    (hcount : CBuffer.Counts s.writeBuf.size ((due s).flatten.length + dataSize f)) :
    ¬(s.tryReadTurn i).toCService.Queued (due (s.tryReadTurn i)).flatten := by
  intro hq'
  have hlen := hq'.length
  have hfit : dataSize f ≤ s.writeBuf.size := by
    have := hq.left
    omega
  have hhead : (dataHead i f).length = 11 := length_dataHead i f
  unfold CSignalServer.tryReadTurn at hlen
  simp only [hf, hleft, ge_iff_le, le_refl, if_true] at hlen
  have hdue : ∀ c : CService, c.writeBuf.size = s.writeBuf.size →
      (due ({ s with toCService := c }.passFrame i f)).flatten.length =
        (due s).flatten.length + dataSize f := by
    intro c hc
    rw [due_passFrame, if_pos (by rw [hc]; exact hfit)]
    simp [due, hc]
  rw [hdue _ (by rw [size_sendData, size_sendData])] at hlen
  simp only [CSignalServer.passFrame] at hlen
  unfold dataSize at hleft hcount hlen
  by_cases hnil : f.payload = []
  · have hno : s.toCService.sendData (dataHead i f) = (s.toCService, false) :=
      sendData_of_le (by rw [hnil, List.length_nil] at hleft; omega)
    rw [hno, hnil, sendData_nil] at hlen
    simp only at hlen
    have hlen0 := hq.length
    omega
  · have hpos : 0 < f.payload.length := List.length_pos_of_ne_nil hnil
    have hne : dataHead i f ≠ [] := fun h => by rw [h] at hhead; cases hhead
    obtain ⟨-, hq1⟩ := hq.sendData hne (by omega) (hcount.mono (by omega))
    have hlen1 := hq1.length
    have hleft1 := hq1.left
    have hlen0 := hq.length
    have hleft0 := hq.left
    have hout := out_sendData (dataHead i f) s.toCService
    rw [hout, List.length_append, hhead] at hlen1
    rw [size_sendData] at hleft1
    have hno : (s.toCService.sendData (dataHead i f)).1.sendData f.payload =
        ((s.toCService.sendData (dataHead i f)).1, false) := sendData_of_le (by omega)
    rw [hno] at hlen
    simp only [hout] at hlen
    omega

/-- A clean turn keeps the stream that of the packages due. -/
theorem queued_tryReadTurn {s : Relay} {i : Nat} (hq : s.server.toCService.Queued (due s.server).flatten)
    (hclean : s.Clean (.tryRead i)) :
    (s.server.tryReadTurn i).toCService.Queued (due (s.server.tryReadTurn i)).flatten := by
  unfold CSignalServer.tryReadTurn
  cases hf : s.server.curFrame i with
  | none => exact hq
  | some f =>
    simp only
    by_cases hroom : s.server.writeBuf.left ≥ dataSize f
    · rw [if_pos hroom]
      have htaken : taken i s.server = some f := by simp [taken, hf, hroom]
      simp only [Clean, htaken, SendsWhole] at hclean
      obtain ⟨hne, hcount, -⟩ := hclean
      have hqueued : queued s.server = (due s.server).flatten.length := hq.length
      rw [hqueued] at hcount
      have hleft := hq.left
      have hfit : dataSize f ≤ s.server.writeBuf.size := by omega
      rw [due_passFrame]
      simp only [size_sendData, hfit, if_true, List.flatten_append, List.flatten_cons,
        List.flatten_nil, List.append_nil]
      have hdue : ∀ c : CService, c.writeBuf.size = s.server.writeBuf.size →
          due { s.server with toCService := c } = due s.server := by
        intro c hc
        simp only [due, hc]
      rw [hdue _ (by rw [size_sendData, size_sendData])]
      exact queued_frame i hq (by omega) hcount
    · rw [if_neg hroom]
      by_cases hbig : s.server.writeBuf.size < dataSize f
      · rw [if_pos hbig, due_passFrame, if_neg (Nat.not_le.mpr hbig), List.append_nil]
        exact hq
      · rw [if_neg hbig]
        exact hq

/-! ## The invariant -/

/-- Where the server stands in what the client asked. -/
def Up (names : List Name) (server : CSignalServer) (asked : List (List UInt8)) (got : Nat) : Prop :=
  ∃ done rest, asked = done ++ rest ∧
    Reading (processHead 4096) server.toCService got done rest ∧
    (done = [] → server.readers = []) ∧ (done ≠ [] → server.readers.map (·.name) = names)

/-- The payload that a package brings to signal `i`. -/
def payloadOf (i : Nat) (p : List UInt8) : Option (List UInt8) :=
  if cmdOf p = SACMD_SIGNAL_DATA ∧ fieldOf p = i then some (p.drop 11) else none

/-- Where the client stands in the packages due. -/
def Down (client : CSignalRequester) (pkgs : List (List UInt8)) (got : Nat) : Prop :=
  ∃ done rest, pkgs = done ++ rest ∧
    Reading (processHead client.readSize) client.toCService got done rest ∧
    ∀ i, client.pages i = done.filterMap (payloadOf i)

structure Inv (names : List Name) (s : Relay) : Prop where
  srvOpen : s.server.closed = false
  cliOpen : s.client.closed = false
  srvHead : s.server.headSize = 7 ∧ s.server.readSize = 4096
  cliHead : s.client.headSize = 7 ∨ s.client.headSize = 0 ∧ s.client.readBody = false
  cliSize : s.client.writeBuf.size = 4096
  queued : s.server.toCService.Queued (due s.server).flatten
  asked : s.client.toCService.Queued s.client.asked.flatten
  asks : ∃ k, s.client.asked = requestPkg names :: List.replicate k heartPkg
  up : Up names s.server s.client.asked s.upGot
  down : Down s.client (due s.server) s.downGot
  frames : ∀ i f, Item.frame i f ∈ s.server.history → dataSize f ≤ s.server.writeBuf.size →
    i < names.length ∧ dataSize f ≤ s.client.readSize

theorem counts_4096 (n : Nat) : CBuffer.Counts 4096 n := Or.inl (by decide)

/-- More packages due. -/
theorem Down.append {client : CSignalRequester} {pkgs : List (List UInt8)} {got : Nat}
    (h : Down client pkgs got) (more : List (List UInt8)) : Down client (pkgs ++ more) got := by
  obtain ⟨done, rest, rfl, hread, hpages⟩ := h
  exact ⟨done, rest ++ more, List.append_assoc _ _ _, hread.append more, hpages⟩

theorem Up.append {names : List Name} {server : CSignalServer} {asked : List (List UInt8)} {got : Nat}
    (h : Up names server asked got) (more : List (List UInt8)) : Up names server (asked ++ more) got := by
  obtain ⟨done, rest, rfl, hread, hnil, hnames⟩ := h
  exact ⟨done, rest ++ more, List.append_assoc _ _ _, hread.append more, hnil, hnames⟩

/-- What the server's side of an invariant reads of the server. -/
theorem Up.congr {names : List Name} {server t : CSignalServer} {asked : List (List UInt8)} {got : Nat}
    (h : Up names server asked got) (ht : SameReading t.toCService server.toCService)
    (hnames : t.readers.map (·.name) = server.readers.map (·.name)) : Up names t asked got := by
  obtain ⟨done, rest, rfl, hread, hnil, hmap⟩ := h
  refine ⟨done, rest, rfl, hread.congr ht, fun hd => ?_, fun hd => ?_⟩
  · rw [hnil hd] at hnames
    exact List.map_eq_nil_iff.mp hnames
  · rw [hnames]
    exact hmap hd

/-- Every package due is one the client can hold. -/
theorem Inv.wellFormed_due {names : List Name} {s : Relay} (h : Inv names s) :
    ∀ p ∈ due s.server, WellFormed (processHead s.client.readSize) 7 p ∧ p ≠ [] := by
  intro p hp
  obtain ⟨it, hit, hpkg⟩ := List.mem_filterMap.mp hp
  cases it with
  | reply =>
    obtain rfl := Option.some.inj hpkg
    exact ⟨wellFormed_replyPkg _, by decide⟩
  | frame i f =>
    simp only [pkgOf] at hpkg
    split at hpkg
    · rename_i hfit
      obtain rfl := Option.some.inj hpkg
      refine ⟨wellFormed_dataPkg (h.frames i f hit hfit).2, fun hnil => ?_⟩
      have hlen := length_dataPkg i f
      rw [hnil, List.length_nil, dataSize] at hlen
      omega
    · cases hpkg

theorem Inv.wellFormed_asked {names : List Name} {s : Relay} (h : Inv names s)
    (hreq : requestLen names < 4096) :
    ∀ p ∈ s.client.asked, WellFormed (processHead 4096) 7 p := by
  obtain ⟨k, hk⟩ := h.asks
  intro p hp
  rw [hk] at hp
  rcases List.mem_cons.mp hp with rfl | hp
  · exact wellFormed_requestPkg hreq.le (by decide)
  · rw [List.eq_of_mem_replicate hp]
    exact wellFormed_heartPkg _

/-! ### Steps -/

variable {names : List Name} {s : Relay}

/-- A step of the server: what it reads is `Up`'s, what it passes are `items`. -/
theorem Inv.server (h : Inv names s) {t : CSignalServer} {got : Nat} (items : List Item)
    (hopen : t.closed = false) (hhead : t.headSize = 7 ∧ t.readSize = 4096)
    (hsize : t.writeBuf.size = s.server.writeBuf.size) (hup : Up names t s.client.asked got)
    (hq : t.toCService.Queued (due t).flatten) (hhist : t.history = s.server.history ++ items)
    (hitems : ∀ i f, Item.frame i f ∈ items → dataSize f ≤ s.server.writeBuf.size →
      i < names.length ∧ dataSize f ≤ s.client.readSize) :
    Inv names { s with server := t, upGot := got } := by
  have hdue : due t = due s.server ++ items.filterMap (pkgOf s.server.writeBuf.size) := by
    simp only [due, hhist, hsize, List.filterMap_append]
  refine ⟨hopen, h.cliOpen, hhead, h.cliHead, h.cliSize, hq, h.asked, h.asks, hup, ?_, ?_⟩
  · rw [hdue]
    exact h.down.append _
  · intro i f hmem hfit
    rw [hhist] at hmem
    rw [hsize] at hfit
    rcases List.mem_append.mp hmem with hmem | hmem
    · exact h.frames i f hmem hfit
    · exact hitems i f hmem hfit

/-- The head and read sizes do not change. -/
theorem Inv.srvHead_congr (h : Inv names s) {c : CService} (hsame : SameReading c s.server.toCService) :
    c.headSize = 7 ∧ c.readSize = 4096 :=
  ⟨hsame.headSize.trans h.srvHead.1, hsame.readSize.trans h.srvHead.2⟩

/-- A step of the client: what it reads is `Down`'s, what it asks for are heart-beats. -/
theorem Inv.client (h : Inv names s) {t : CSignalRequester} {got k : Nat} (hopen : t.closed = false)
    (hhead : t.headSize = 7 ∨ t.headSize = 0 ∧ t.readBody = false)
    (hread : t.readSize = s.client.readSize) (hsize : t.writeBuf.size = s.client.writeBuf.size)
    (hdown : Down t (due s.server) got) (hq : t.toCService.Queued t.asked.flatten)
    (hasked : t.asked = s.client.asked ++ List.replicate k heartPkg) :
    Inv names { s with client := t, downGot := got } := by
  refine ⟨h.srvOpen, hopen, h.srvHead, hhead, hsize.trans h.cliSize, h.queued, hq, ?_, ?_, hdown, ?_⟩
  · obtain ⟨j, hj⟩ := h.asks
    refine ⟨j + k, ?_⟩
    rw [hasked, hj, List.cons_append, List.replicate_add]
  · rw [hasked]
    exact h.up.append _
  · rw [hread]
    exact h.frames

/-- What the client's side of an invariant reads of the client. -/
theorem Down.congr {client t : CSignalRequester} {pkgs : List (List UInt8)} {got : Nat}
    (h : Down client pkgs got) (ht : SameReading t.toCService client.toCService)
    (hpages : t.pages = client.pages) : Down t pkgs got := by
  obtain ⟨done, rest, rfl, hread, hdone⟩ := h
  refine ⟨done, rest, rfl, ?_, ?_⟩
  · rw [ht.readSize]
    exact hread.congr ht
  · rw [hpages]
    exact hdone

theorem Inv.cliHead_congr (h : Inv names s) {c : CService} (hsame : SameReading c s.client.toCService) :
    c.headSize = 7 ∨ c.headSize = 0 ∧ c.readBody = false := by
  rw [hsame.headSize, hsame.readBody]
  exact h.cliHead

theorem inv_publish (h : Inv names s) (name : Name) (f : Frame) :
    Inv names (s.next (.publish name f)) := by
  have hnames : (s.server.publish name f).readers.map (·.name) = s.server.readers.map (·.name) := by
    simp only [CSignalServer.publish, List.map_map]
    refine List.map_congr_left fun r _ => ?_
    simp only [Function.comp]
    split <;> rfl
  exact h.server [] h.srvOpen h.srvHead rfl (h.up.congr (SameReading.refl _) hnames) h.queued
    (List.append_nil _).symm fun _ _ hmem => by cases hmem

theorem inv_tryRead (h : Inv names s) {i : Nat} (hclean : s.Clean (.tryRead i)) :
    Inv names (s.next (.tryRead i)) := by
  have hq := queued_tryReadTurn h.queued hclean
  obtain ⟨c, hsame, hsize, heq⟩ := s.server.tryReadTurn_eq i
  rw [next, if_neg (by rw [h.srvOpen]; decide)]
  rcases heq with heq | ⟨f, hf, hpass, heq⟩
  · rw [heq] at hq ⊢
    exact h.server [] h.srvOpen (h.srvHead_congr hsame) hsize (h.up.congr hsame rfl) hq
      (List.append_nil _).symm fun _ _ hmem => by cases hmem
  · rw [heq] at hq ⊢
    refine h.server [.frame i f] h.srvOpen (h.srvHead_congr hsame) hsize
      (h.up.congr hsame (CSignalServer.names_passFrame i f _)) hq rfl fun j g hmem hfit => ?_
    obtain ⟨rfl, rfl⟩ := Item.frame.inj (List.mem_singleton.mp hmem)
    have hroom : dataSize g ≤ s.server.writeBuf.left := hpass.resolve_right (Nat.not_lt.mpr hfit)
    have htaken : taken j s.server = some g := by simp [taken, hf, hroom]
    simp only [Clean, htaken, SendsWhole] at hclean
    refine ⟨?_, hclean.2.2⟩
    have hlt := CSignalServer.lt_of_curFrame hf
    obtain ⟨done, rest, -, -, hnil, hmap⟩ := h.up
    by_cases hd : done = []
    · rw [hnil hd] at hlt
      cases hlt
    · rw [← hmap hd, List.length_map]
      exact hlt

theorem inv_serverWrite (h : Inv names s) (n : Nat) : Inv names (s.next (.serverWrite n)) := by
  have hsize := size_writeTurn n s.server.toCService
  rw [next, if_neg (by rw [h.srvOpen]; decide)]
  have hsame := sameReading_writeTurn n s.server.toCService
  refine h.server [] h.srvOpen (h.srvHead_congr hsame) hsize (h.up.congr hsame rfl) ?_
    (List.append_nil _).symm fun _ _ hmem => by cases hmem
  simp only [due, hsize]
  exact h.queued.writeTurn n

theorem inv_clientWrite (h : Inv names s) (n : Nat) : Inv names (s.next (.clientWrite n)) := by
  rw [next, if_neg (by rw [h.cliOpen]; decide)]
  have hsame := sameReading_writeTurn n s.client.toCService
  exact h.client h.cliOpen (h.cliHead_congr hsame) hsame.readSize (size_writeTurn n _)
    (h.down.congr hsame rfl) (h.asked.writeTurn n) (k := 0) (List.append_nil _).symm

theorem inv_heartBeat (h : Inv names s) : Inv names (s.next .heartBeat) := by
  rw [next, if_neg (by rw [h.cliOpen]; decide)]
  by_cases hroom : heartPkg.length < s.client.writeBuf.left
  · obtain ⟨hok, hq⟩ := h.asked.sendData (by decide) hroom (by rw [h.cliSize]; exact counts_4096 _)
    have hasked : s.client.tryHeartBeat.asked = s.client.asked ++ [heartPkg] := by
      simp only [CSignalRequester.tryHeartBeat, hok, if_true]
    have hsame := sameReading_sendData heartPkg s.client.toCService
    refine h.client h.cliOpen (h.cliHead_congr hsame) hsame.readSize (size_sendData _ _)
      (h.down.congr hsame rfl) ?_ (k := 1) hasked
    rw [hasked, List.flatten_append, List.flatten_singleton]
    exact hq
  · have hno := sendData_of_le (Nat.not_lt.mp hroom)
    have heq : s.client.tryHeartBeat = s.client := by
      simp only [CSignalRequester.tryHeartBeat, hno, Bool.false_eq_true, if_false]
    rw [heq]
    exact h

/-! ### Steps that read -/

/-- The next bytes of a stream. -/
theorem nextBytes_spec {out : List UInt8} {pkgs : List (List UInt8)} {got n : Nat} {t : CService}
    {ph : List UInt8 → Option Nat} {done rest : List (List UInt8)} (hout : out <+: pkgs.flatten)
    (hsplit : pkgs = done ++ rest) (hread : Reading ph t got done rest) :
    (nextBytes out got n t).length ≤ t.want ∧ t.readBuf ++ nextBytes out got n t <+: rest.flatten := by
  unfold nextBytes
  refine ⟨?_, ?_⟩
  · rw [List.length_take]
    omega
  · obtain ⟨tl, htl⟩ := hread.buf
    have hlen : got = (done.flatten ++ t.readBuf).length := by
      rw [hread.got, List.length_append]
    have hstream : pkgs.flatten = done.flatten ++ t.readBuf ++ tl := by
      rw [hsplit, List.flatten_append, ← htl, List.append_assoc]
    have htail : out.drop got <+: tl := by
      obtain ⟨later, hlater⟩ := hout
      refine ⟨later.drop (got - out.length), ?_⟩
      rw [← List.drop_append, hlater, hstream, hlen, List.drop_left]
    rw [← htl, List.prefix_append_right_inj]
    exact (List.take_prefix _ _).trans htail

theorem Queued.congr {c t : CService} {bytes : List UInt8} (h : c.Queued bytes)
    (hbuf : t.writeBuf = c.writeBuf) (hout : t.out = c.out) : t.Queued bytes := by
  unfold CService.Queued
  rw [hbuf, hout]
  exact h

/-- The request comes first, and heart-beats behind it. -/
theorem pkg_of_asks {done ps : List (List UInt8)} {p : List UInt8} {k : Nat}
    (h : requestPkg names :: List.replicate k heartPkg = done ++ p :: ps) :
    (done = [] → p = requestPkg names) ∧ (done ≠ [] → p = heartPkg) := by
  cases done with
  | nil =>
    refine ⟨fun _ => ?_, fun hd => absurd rfl hd⟩
    rw [List.nil_append] at h
    exact (List.cons.inj h).1.symm
  | cons d done =>
    refine ⟨fun hd => (by cases hd), fun _ => ?_⟩
    rw [List.cons_append] at h
    have hmem : p ∈ List.replicate k heartPkg := by
      rw [(List.cons.inj h).2]
      exact List.mem_append_right _ List.mem_cons_self
    exact List.eq_of_mem_replicate hmem

/-- The server answers the request with readers, in the order of the names. -/
theorem processPkg_requestPkg (hnodup : names.Nodup) (hlen : requestLen names < 4096)
    (t : CSignalServer) (hempty : t.readers = []) :
    ∃ t', t.processPkg (requestPkg names) = some t' ∧ t'.toCService = t.toCService ∧
      t'.history = t.history ∧ t'.closed = t.closed ∧ t'.readers.map (·.name) = names := by
  have hcnt := length_lt_of_requestLen hlen
  have hpkg : requestPkg names =
      saHead SACMD_REQ_SIG (requestLen names) ++ (leBytes 4 names.length ++ nameBytes names) := by
    rw [requestPkg, requestHead, List.append_assoc]
  obtain ⟨hfield, hdrop⟩ :=
    fieldOf_saHead SACMD_REQ_SIG (requestLen names) (hcnt.trans (by decide)) (nameBytes names)
  have hnames := sigNames_nameBytes names []
  rw [List.append_nil] at hnames
  obtain ⟨h1, h2, h3⟩ := foldl_addReader names t
  refine ⟨names.foldl CSignalServer.addReader t, ?_, h1, h2, h3, ?_⟩
  · rw [CSignalServer.processPkg, hpkg, cmdOf_saHead, if_pos rfl, hfield, hdrop, asInt32_of_lt hcnt,
      Int.toNat_natCast, hnames]
  · rw [readers_foldl_addReader names t (by rw [hempty]; exact hnodup), hempty]
    rfl

theorem processPkg_heartPkg (t : CSignalServer) :
    t.processPkg heartPkg = some { t with
      toCService := (t.toCService.sendData replyPkg).1
      history := if (t.toCService.sendData replyPkg).2 then t.history ++ [.reply] else t.history } :=
  rfl

theorem inv_serverRead (hnodup : names.Nodup) (hlen : requestLen names < 4096) (h : Inv names s)
    {n : Nat} (hclean : s.Clean (.serverRead n)) : Inv names (s.next (.serverRead n)) := by
  obtain ⟨done, rest, hsplit, hread, hnil, hmap⟩ := h.up
  obtain ⟨hwant, hnext⟩ := nextBytes_spec (n := n) h.asked.out_prefix hsplit hread
  rw [next]
  generalize nextBytes s.client.out s.upGot n s.server.toCService = bytes at *
  by_cases hempty : bytes = []
  · rw [if_pos (by rw [hempty]; simp)]
    exact h
  rw [if_neg (by rw [h.srvOpen]; simpa using hempty)]
  have hwf : ∀ p ∈ rest, WellFormed (processHead 4096) s.server.headSize p := by
    intro p hp
    rw [h.srvHead.1]
    exact h.wellFormed_asked hlen p (by rw [hsplit]; exact List.mem_append_right _ hp)
  have hstep := hread.readTurn hwf hempty hwant hnext
  obtain ⟨hbuf, hout, hhead, hsize⟩ := readTurn_sending (processHead 4096) bytes s.server.toCService
  unfold CSignalServer.readBytes
  rw [h.srvHead.2]
  generalize s.server.toCService.readTurn (processHead 4096) bytes = r at *
  obtain ⟨c, o⟩ := r
  simp only at hbuf hout hhead hsize ⊢
  have hsrv : c.headSize = 7 ∧ c.readSize = 4096 :=
    ⟨hhead.trans h.srvHead.1, hsize.trans h.srvHead.2⟩
  have hq : c.Queued (due s.server).flatten := Queued.congr h.queued hbuf hout
  have hdue : due { s.server with toCService := c } = due s.server := by
    simp only [due, hbuf]
  cases o with
  | bad => exact hstep.elim
  | more =>
    refine h.server [] h.srvOpen hsrv (by rw [hbuf]) ⟨done, rest, hsplit, hstep, hnil, hmap⟩ ?_
      (List.append_nil _).symm fun _ _ hmem => by cases hmem
    rw [hdue]
    exact hq
  | pkg p =>
    obtain ⟨ps, rfl, hread'⟩ := hstep
    obtain ⟨k, hk⟩ := h.asks
    obtain ⟨hfirst, hlater⟩ := pkg_of_asks (hk.symm.trans hsplit)
    have hsplit' : s.client.asked = (done ++ [p]) ++ ps := by
      rw [hsplit, List.append_assoc]
      rfl
    have hne : done ++ [p] ≠ [] := List.append_ne_nil_of_right_ne_nil _ (List.cons_ne_nil _ _)
    by_cases hd : done = []
    · -- the request
      rw [hfirst hd]
      obtain ⟨t, ht, hc, hhist, hopen, hnames⟩ :=
        processPkg_requestPkg hnodup hlen { s.server with toCService := c } (hnil hd)
      simp only [ht, Option.getD_some]
      refine h.server [] (hopen.trans h.srvOpen) (by rw [hc]; exact hsrv) (by rw [hc, hbuf])
        ⟨done ++ [p], ps, hsplit', by rw [hc]; exact hread', fun hd' => absurd hd' hne, fun _ => hnames⟩
        ?_ (by rw [hhist, List.append_nil]) fun _ _ hmem => by cases hmem
      have hdue' : due t = due s.server := by simp only [due, hc, hhist, hbuf]
      rw [hdue', hc]
      exact hq
    · -- a heart-beat, which is answered whole or not at all
      rw [hlater hd]
      have hup : ∀ c' : CService, SameReading c' c → ∀ hist,
          Up names { s.server with toCService := c', history := hist } s.client.asked
            (s.upGot + bytes.length) := by
        intro c' hsame hist
        exact ⟨done ++ [p], ps, hsplit', hread'.congr hsame, fun hd' => absurd hd' hne,
          fun _ => hmap hd⟩
      dsimp only
      rw [processPkg_heartPkg, Option.getD_some]
      have hsame := sameReading_sendData replyPkg c
      by_cases hroom : replyPkg.length < c.writeBuf.left
      · have hcount : CBuffer.Counts c.writeBuf.size ((due s.server).flatten.length + replyPkg.length) := by
          rw [hbuf]
          have hqueued : queued s.server = (due s.server).flatten.length := h.queued.length
          rw [← hqueued]
          exact hclean
        obtain ⟨hok, hq'⟩ := hq.sendData (by decide) hroom hcount
        rw [if_pos hok]
        refine h.server [.reply] h.srvOpen ⟨hsame.headSize.trans hsrv.1, hsame.readSize.trans hsrv.2⟩
          (by rw [size_sendData, hbuf]) (hup _ hsame _) ?_ rfl fun _ _ hmem => ?_
        · have hdue' : due { s.server with
              toCService := (c.sendData replyPkg).1, history := s.server.history ++ [.reply] } =
              due s.server ++ [replyPkg] := by
            simp only [due, size_sendData, hbuf, List.filterMap_append]
            rfl
          rw [hdue', List.flatten_append, List.flatten_singleton]
          exact hq'
        · cases List.mem_singleton.mp hmem
      · have hno := sendData_of_le (Nat.not_lt.mp hroom)
        rw [hno]
        refine h.server [] h.srvOpen hsrv (by rw [hbuf]) (hup c (SameReading.refl c) _) ?_
          (List.append_nil _).symm fun _ _ hmem => by cases hmem
        simp only [Bool.false_eq_true, if_false]
        rw [hdue]
        exact hq

theorem fieldOf_dataPkg {j : Nat} {f : Frame} (hj : j < 2 ^ 32) :
    fieldOf (dataPkg j f) = j ∧ (dataPkg j f).drop 11 = f.payload := by
  unfold dataPkg dataHead
  rw [List.append_assoc]
  exact fieldOf_saHead _ _ hj f.payload

/-- What a package due brings to signal `i` is what its item says. -/
theorem payloadOf_pkgOf (h : Inv names s) (hlen : requestLen names < 4096) {it : Item}
    (hit : it ∈ s.server.history) {p : List UInt8} (hp : pkgOf s.server.writeBuf.size it = some p) :
    (cmdOf p = SACMD_REP_HEATBEAT ∧ it = .reply) ∨
      ∃ j f, it = .frame j f ∧ dataSize f ≤ s.server.writeBuf.size ∧ cmdOf p = SACMD_SIGNAL_DATA ∧
        fieldOf p = j ∧ p.drop 11 = f.payload := by
  cases it with
  | reply =>
    obtain rfl := Option.some.inj hp
    exact Or.inl ⟨rfl, rfl⟩
  | frame j f =>
    simp only [pkgOf] at hp
    split at hp
    · rename_i hfit
      obtain rfl := Option.some.inj hp
      have hj : j < 2 ^ 32 :=
        (h.frames j f hit hfit).1.trans ((length_lt_of_requestLen hlen).trans (by decide))
      obtain ⟨hfield, hdrop⟩ := fieldOf_dataPkg (f := f) hj
      exact Or.inr ⟨j, f, rfl, hfit, rfl, hfield, hdrop⟩
    · cases hp

theorem inv_clientRead (hlen : requestLen names < 4096) (h : Inv names s) (n : Nat) :
    Inv names (s.next (.clientRead n)) := by
  obtain ⟨done, rest, hsplit, hread, hpages⟩ := h.down
  obtain ⟨hwant, hnext⟩ := nextBytes_spec (n := n) h.queued.out_prefix hsplit hread
  rw [next]
  generalize nextBytes s.server.out s.downGot n s.client.toCService = bytes at *
  by_cases hempty : bytes = []
  · rw [if_pos (by rw [hempty]; simp)]
    exact h
  rw [if_neg (by rw [h.cliOpen]; simpa using hempty)]
  have hpos : 0 < bytes.length := List.length_pos_of_ne_nil hempty
  have hseven : s.client.headSize = 7 := by
    rcases h.cliHead with h7 | ⟨h0, hbody⟩
    · exact h7
    · unfold CService.want at hwant
      rw [hbody, h0] at hwant
      simp only [Bool.false_eq_true, if_false] at hwant
      omega
  have hwf : ∀ p ∈ rest, WellFormed (processHead s.client.readSize) s.client.headSize p := by
    intro p hp
    rw [hseven]
    exact (h.wellFormed_due p (by rw [hsplit]; exact List.mem_append_right _ hp)).1
  have hstep := hread.readTurn hwf hempty hwant hnext
  obtain ⟨hbuf, hout, hhead, hsize⟩ :=
    readTurn_sending (processHead s.client.readSize) bytes s.client.toCService
  unfold CSignalRequester.readBytes
  generalize s.client.toCService.readTurn (processHead s.client.readSize) bytes = r at *
  obtain ⟨c, o⟩ := r
  simp only at hbuf hout hhead hsize ⊢
  have hq : c.Queued s.client.asked.flatten := Queued.congr h.asked hbuf hout
  cases o with
  | bad => exact hstep.elim
  | more =>
    refine h.client h.cliOpen (Or.inl (hhead.trans hseven)) hsize (by rw [hbuf])
      ⟨done, rest, hsplit, ?_, hpages⟩ hq (k := 0) (List.append_nil _).symm
    rw [hsize]
    exact hstep
  | pkg p =>
    obtain ⟨ps, rfl, hread'⟩ := hstep
    have hsplit' : due s.server = (done ++ [p]) ++ ps := by
      rw [hsplit, List.append_assoc]
      rfl
    obtain ⟨it, hit, hp⟩ : ∃ it ∈ s.server.history, pkgOf s.server.writeBuf.size it = some p := by
      have hmem : p ∈ due s.server := by
        rw [hsplit]
        exact List.mem_append_right _ List.mem_cons_self
      exact List.mem_filterMap.mp hmem
    rcases payloadOf_pkgOf h hlen hit hp with ⟨hcmd, -⟩ | ⟨j, f, -, -, hcmd, hfield, hdrop⟩
    · -- a reply, which the client drops
      have hproc : ∀ t : CSignalRequester, t.processPkg p = some t := by
        intro t
        unfold CSignalRequester.processPkg
        rw [hcmd]
        rfl
      simp only [hproc, Option.getD_some]
      refine h.client h.cliOpen (Or.inl (hhead.trans hseven)) hsize (by rw [hbuf])
        ⟨done ++ [p], ps, hsplit', ?_, fun i => ?_⟩ hq (k := 0) (List.append_nil _).symm
      · rw [hsize]
        exact hread'
      · have hnone : payloadOf i p = none := by
          unfold payloadOf
          rw [hcmd]
          rfl
        rw [List.filterMap_append, List.filterMap_cons_none hnone, List.filterMap_nil,
          List.append_nil]
        exact hpages i
    · -- a frame, which goes to the pages of its signal
      have hproc : ∀ t : CSignalRequester, t.processPkg p = some { t with
          pages := fun i => if i = j then t.pages i ++ [f.payload] else t.pages i } := by
        intro t
        unfold CSignalRequester.processPkg
        rw [hcmd, if_pos rfl, hfield, hdrop]
      simp only [hproc, Option.getD_some]
      refine h.client h.cliOpen (Or.inl (hhead.trans hseven)) hsize (by rw [hbuf])
        ⟨done ++ [p], ps, hsplit', ?_, fun i => ?_⟩ hq (k := 0) (List.append_nil _).symm
      · rw [hsize]
        exact hread'
      · have hpay : payloadOf i p = if i = j then some f.payload else none := by
          unfold payloadOf
          rw [hcmd, hfield, hdrop]
          simp [eq_comm]
        simp only [List.filterMap_append]
        rw [← hpages i]
        by_cases hij : i = j
        · rw [if_pos hij] at hpay
          rw [if_pos hij, List.filterMap_cons_some hpay, List.filterMap_nil]
        · rw [if_neg hij] at hpay
          rw [if_neg hij, List.filterMap_cons_none hpay, List.filterMap_nil, List.append_nil]

/-! ## Runs -/

theorem holds_newBuf (p : Mem) (size : Nat) (h : size < 2 ^ 32) : (newBuf p size h).Holds 0 [] :=
  ⟨rfl, rfl, Nat.zero_le _, Or.inr (by decide), fun _ hk => by cases hk⟩

/-- The names of a request that fits are queued behind its head. -/
theorem queued_names (names : List Name) (c : CService) (bytes : List UInt8) (hq : c.Queued bytes)
    (hout : c.out = []) (hsize : c.writeBuf.size = 4096)
    (hroom : bytes.length + (nameBytes names).length < 4096) :
    let t := names.foldl (fun t n => (t.sendData (n.1 ++ [0])).1) c
    t.Queued (bytes ++ nameBytes names) ∧ SameReading t c ∧ t.writeBuf.size = 4096 := by
  induction names generalizing c bytes with
  | nil =>
    rw [nameBytes, List.flatMap_nil, List.append_nil]
    exact ⟨hq, SameReading.refl c, hsize⟩
  | cons n names ih =>
    have hcons : nameBytes (n :: names) = (n.1 ++ [0]) ++ nameBytes names := by
      simp [nameBytes]
    rw [hcons, List.length_append] at hroom
    have hlen := hq.length
    have hleft := hq.left
    rw [hout, List.length_nil] at hlen
    have hne : n.1 ++ [0] ≠ [] := List.append_ne_nil_of_right_ne_nil _ (List.cons_ne_nil _ _)
    obtain ⟨-, hq'⟩ := hq.sendData hne (by omega) (by rw [hsize]; exact counts_4096 _)
    have hout' : (c.sendData (n.1 ++ [0])).1.out = [] := (out_sendData _ c).trans hout
    obtain ⟨h1, h2, h3⟩ := ih _ _ hq' hout' ((size_sendData _ _).trans hsize)
      (by rw [List.length_append]; omega)
    rw [hcons, ← List.append_assoc]
    exact ⟨h1, h2.trans (sameReading_sendData _ _), h3⟩

theorem inv_start (p p' : Mem) {size : Nat} (h : size < 2 ^ 32) (bufSize : Nat)
    (hlen : requestLen names < 4096) : Inv names (start p p' size h bufSize names) := by
  have hsrv : (newServer p size h).toCService =
      { headSize := 7, readSize := 4096, writeBuf := newBuf p size h } := rfl
  generalize hc : ({ readSize := bufSize, writeBuf := newBuf p' 4096 (by decide) } :
    CService).setHeadSize 7 = c
  have hc0 : c.writeBuf = newBuf p' 4096 (by decide) ∧ c.out = [] ∧ c.readBuf = [] ∧
      c.readBody = false ∧ (c.headSize = 7 ∨ c.headSize = 0) := by
    rw [← hc]
    unfold CService.setHeadSize
    split
    · exact ⟨rfl, rfl, rfl, rfl, Or.inl rfl⟩
    · exact ⟨rfl, rfl, rfl, rfl, Or.inr rfl⟩
  obtain ⟨hbuf, hout, hempty, hbody, hhead⟩ := hc0
  have hq0 : c.Queued [] := by
    refine ⟨[], ?_, by rw [hout]; rfl⟩
    rw [hbuf, hout]
    exact holds_newBuf p' 4096 _
  have hsize : c.writeBuf.size = 4096 := by rw [hbuf]; rfl
  have hleft := hq0.left
  have hlen0 := hq0.length
  rw [hout, List.length_nil] at hlen0
  unfold requestLen at hlen
  have hne : requestHead names ≠ [] := List.append_ne_nil_of_left_ne_nil (by simp [saHead]) _
  obtain ⟨-, hq1⟩ := hq0.sendData hne (by rw [length_requestHead]; omega)
    (by rw [hsize]; exact counts_4096 _)
  have hout1 : (c.sendData (requestHead names)).1.out = [] := (out_sendData _ c).trans hout
  obtain ⟨hq2, hsame, hsize2⟩ := queued_names names _ _ hq1 hout1
    ((size_sendData _ _).trans hsize)
    (by rw [List.nil_append, length_requestHead]; exact hlen)
  have hsame' := hsame.trans (sameReading_sendData _ _)
  have hcli : newClient p' bufSize names = { ({ toCService := c, signames := names } :
      CSignalRequester) with
        toCService := names.foldl (fun t n => (t.sendData (n.1 ++ [0])).1)
          (c.sendData (requestHead names)).1
        asked := [requestPkg names] } := by
    rw [← hc]
    rfl
  have hnone : (names.foldl (fun t n => (t.sendData (n.1 ++ [0])).1)
      (c.sendData (requestHead names)).1).readBuf = [] := hsame'.readBuf.trans hempty
  unfold start
  rw [hcli]
  refine ⟨rfl, rfl, ⟨rfl, rfl⟩, ?_, hsize2, ?_, ?_, ⟨0, rfl⟩, ?_, ?_, fun i f hmem => by cases hmem⟩
  · simp only [hsame'.headSize, hsame'.readBody, hbody]
    exact hhead.imp id fun h0 => ⟨h0, trivial⟩
  · exact ⟨[], holds_newBuf p size h, rfl⟩
  · rw [List.nil_append] at hq2
    rw [List.flatten_singleton]
    exact hq2
  · refine ⟨[], [requestPkg names], rfl, ⟨rfl, List.nil_prefix, fun _ => Or.inr rfl, fun hb => ?_⟩,
      fun _ => rfl, fun hne => absurd rfl hne⟩
    cases hb
  · refine ⟨[], [], rfl, ⟨?_, ?_, fun _ => Or.inr hnone, fun hb => ?_⟩, fun _ => rfl⟩
    · simp only [hnone, List.flatten_nil, List.length_nil]
    · simp only [hnone]
      exact List.nil_prefix
    · rw [hsame'.readBody, hbody] at hb
      cases hb

theorem inv_next (hnodup : names.Nodup) (hlen : requestLen names < 4096) (h : Inv names s)
    {e : Event} (hclean : s.Clean e) : Inv names (s.next e) := by
  cases e with
  | publish name f => exact inv_publish h name f
  | tryRead i => exact inv_tryRead h hclean
  | heartBeat => exact inv_heartBeat h
  | serverWrite n => exact inv_serverWrite h n
  | serverRead n => exact inv_serverRead hnodup hlen h hclean
  | clientWrite n => exact inv_clientWrite h n
  | clientRead n => exact inv_clientRead hlen h n

/-- The payloads that the packages due bring to signal `i`. -/
theorem filterMap_due (h : Inv names s) (hlen : requestLen names < 4096) (i : Nat) :
    (due s.server).filterMap (payloadOf i) =
      framesOf i s.server.writeBuf.size s.server.history := by
  unfold due framesOf
  rw [List.filterMap_filterMap]
  refine List.filterMap_congr fun it hit => ?_
  cases hp : pkgOf s.server.writeBuf.size it with
  | none =>
    cases it with
    | reply => cases hp
    | frame j f =>
      simp only [pkgOf] at hp
      split at hp
      · cases hp
      · rename_i hbig
        simp [hbig]
  | some p =>
    simp only [Option.bind_some]
    rcases payloadOf_pkgOf h hlen hit hp with ⟨hcmd, rfl⟩ | ⟨j, f, rfl, hfit, hcmd, hfield, hdrop⟩
    · unfold payloadOf
      rw [hcmd]
      rfl
    · unfold payloadOf
      rw [hcmd, hfield, hdrop]
      simp [hfit]

theorem relayed_of_inv (hlen : requestLen names < 4096) (h : Inv names s) : Relayed names s := by
  obtain ⟨done, rest, hsplit, hread, hpages⟩ := h.down
  refine ⟨⟨h.queued.out_prefix, h.queued.eq_of_len⟩, ?_, fun i => ?_, fun h0 hgot i => ?_⟩
  · obtain ⟨done', rest', -, -, hnil, hmap⟩ := h.up
    by_cases hd : done' = []
    · rw [hnil hd]
      exact List.nil_prefix
    · simp [hmap hd]
  · rw [← filterMap_due h hlen i, hsplit, List.filterMap_append, hpages i]
    exact List.prefix_append _ _
  · -- all bytes due have been sent and read, so that no package is left
    have hout := h.queued.eq_of_len h0
    have hbuf : s.client.readBuf = rest.flatten := by
      refine hread.buf.eq_of_length ?_
      have hlen' := hread.got
      rw [hgot, hout, hsplit, List.flatten_append, List.length_append] at hlen'
      omega
    have hrest : rest = [] := by
      have hne : ∀ p ∈ rest, WellFormed (processHead s.client.readSize) 7 p ∧ p ≠ [] :=
        fun p hp => h.wellFormed_due p (by rw [hsplit]; exact List.mem_append_right _ hp)
      rcases h.cliHead with h7 | ⟨h0, hbody⟩
      · exact hread.complete (fun p hp => by rw [h7]; exact (hne p hp).1) (fun p hp => (hne p hp).2)
          hbuf
      · have hnil : s.client.readBuf = [] := (hread.head hbody).resolve_left (by omega)
        rw [hnil] at hbuf
        cases rest with
        | nil => rfl
        | cons p ps =>
          have hp : p = [] := List.flatten_eq_nil_iff.mp hbuf.symm p List.mem_cons_self
          exact absurd hp (hne p List.mem_cons_self).2
    rw [← filterMap_due h hlen i, hsplit, hrest, List.append_nil]
    exact hpages i

theorem exec_concat (es : List Event) (e : Event) : s.exec (es ++ [e]) = (s.exec es).next e := by
  unfold exec
  rw [List.foldl_append]
  rfl

/-- **The relay.** Through a run of clean steps the stream is the packages of
the frames passed that fit, in order, and the client writes each frame to the
pages of its own signal. -/
theorem relayed_of_run (p p' : Mem) {size : Nat} (h : size < 2 ^ 32) (bufSize : Nat)
    {names : List Name} (hnodup : names.Nodup) (hlen : requestLen names < 4096) {es : List Event}
    (hclean : AtEach (fun pre e => ((start p p' size h bufSize names).exec pre).Clean e) es) :
    Relayed names ((start p p' size h bufSize names).exec es) := by
  have hinv : Inv names ((start p p' size h bufSize names).exec es) := by
    induction es using List.reverseRecOn with
    | nil => exact inv_start p p' h bufSize hlen
    | append_singleton es e ih =>
      rw [atEach_concat] at hclean
      rw [exec_concat]
      exact inv_next hnodup hlen (ih hclean.1) hclean.2
  exact relayed_of_inv hlen hinv

/-! ### A connection with one signal -/

def sigA : Name := ⟨[97], by decide⟩

/-- A frame of five bytes, a package of sixteen. -/
def fiveBytes : Frame := ⟨[1, 2, 3, 4, 5], by decide⟩

/-- The request arrives, a frame is published, sent and received. -/
def oneFrame : List Event :=
  [.clientWrite 99, .serverRead 99, .serverRead 99, .publish sigA fiveBytes, .tryRead 0,
    .serverWrite 99, .clientRead 99, .clientRead 99]

def connect (size : Nat) (h : size < 2 ^ 32) : Relay :=
  start (fun _ => 0) (fun _ => 0) size h 16384 [sigA]

theorem relayed_oneFrame : Relayed [sigA] ((connect 32 (by decide)).exec oneFrame) := by
  refine relayed_of_run _ _ (by decide) _ (by decide) (by decide) ?_
  rw [atEach_iff_getElem]
  decide +kernel

/-- A write buffer of sixteen bytes takes the head of the package and not its
payload. -/
theorem not_relayed_oneFrame : ¬Relayed [sigA] ((connect 16 (by decide)).exec oneFrame) := by
  intro h
  have hlost := h.stream.2 (by decide +kernel)
  revert hlost
  decide +kernel

end Relay

end NatFramework.Signal
