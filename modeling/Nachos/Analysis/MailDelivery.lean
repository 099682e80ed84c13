import Nachos.Library.Runs
import Nachos.Analysis.SemaphoreRuns
import Nachos.Model.PostOffice

/-!
# What becomes of a letter

The frame that `Send` puts on the wire decodes to what it was called with (`FrameOf`): the two
headers lie at fixed places, the data behind them, and the padding is never looked at. So a packet
that comes off a socket passes the assertions of `CheckPktAvail` and `PostalDelivery`.

At the receiving end the device and the postal worker share one buffer, and its owner is told by
`inHdr.length`, `messageAvailable` and the place of the worker together (`WorkerPhase`): it is
free, or it holds a packet for which the semaphore has been raised, or one that the worker is
about to fetch. A poll touches the buffer only in the first case. So every packet that has been
read is in its mailbox, in order, but for at most one that is still in the buffer, and that one is
delivered by the next steps of the worker.
-/

set_option autoImplicit false

namespace Nachos.Analysis

open Nachos.Library Nachos.Model

variable {po : PostOffice} {a : NetworkAddress} {l : Letter} {nBoxes : NetworkAddress → ℤ}
  {s : NetState} {dest source : Buffer} {net : Network}

/-! ## The layers of a packet -/

/-- The mail that a letter should become. -/
def mailOf (l : Letter) : Mail where
  pktHdr := ⟨l.pktHdr.to_, l.sender, l.mailHdr.length + BitVec.ofNat 32 sizeofHeader⟩
  mailHdr := l.mailHdr
  data := (List.range l.mailHdr.length.toNat).map l.data

/-- The letter is for machine `a`, which has `nBoxes` boxes. -/
structure Addressed (nBoxes : ℤ) (a : NetworkAddress) (l : Letter) : Prop where
  machine : l.pktHdr.to_ = a
  box : 0 ≤ l.mailHdr.to_.toInt ∧ l.mailHdr.to_.toInt < nBoxes
  size : l.mailHdr.length.toNat ≤ maxMailSize

/-- The first `length` bytes of the buffer are the mail header and the data of the letter. -/
def Contains (buffer : Buffer) (l : Letter) : Prop :=
  (∀ k < sizeofHeader, buffer k = l.mailHdr.bytes k) ∧
    ∀ k < l.mailHdr.length.toNat, buffer (sizeofHeader + k) = l.data k

/-- The content of a frame. -/
def wireBytes (frame : Frame) : Buffer := fun k =>
  if h : k < maxWireSize then frame ⟨k, h⟩ else 0#8

/-- The frame carries the letter. -/
def FrameOf (l : Letter) (frame : Frame) : Prop :=
  PacketHeader.ofBytes (wireBytes frame) = (mailOf l).pktHdr ∧
    Contains (fun k => wireBytes frame (sizeofHeader + k)) l

theorem words_of_headerBytes {buffer : Buffer} {x y z : BitVec 32}
    (h : ∀ k < sizeofHeader, buffer k = headerBytes x y z k) :
    wordAt buffer 0 = x ∧ wordAt buffer 1 = y ∧ wordAt buffer 2 = z := by
  have hword : ∀ i < 3, wordAt buffer i = wordAt (headerBytes x y z) i := by
    intro i hi
    refine wordAt_congr fun k _ hk => h k ?_
    unfold sizeofHeader
    omega
  refine ⟨?_, ?_, ?_⟩
  · rw [hword 0 (by omega)]
    exact wordAt_bytesOf _ 0
  · rw [hword 1 (by omega)]
    exact wordAt_bytesOf _ 1
  · rw [hword 2 (by omega)]
    exact wordAt_bytesOf _ 2

theorem bcopy_inside {start length k : ℕ} (hk : k < length) :
    bcopy source dest start length (start + k) = source k := by
  unfold bcopy
  rw [if_pos ⟨by omega, by omega⟩, Nat.add_sub_cancel_left]

theorem bcopy_zero {length k : ℕ} (hk : k < length) : bcopy source dest 0 length k = source k := by
  unfold bcopy
  rw [if_pos ⟨by omega, by omega⟩, Nat.sub_zero]

theorem bcopy_before {start length k : ℕ} (hk : k < start) :
    bcopy source dest start length k = dest k := if_neg fun h => by omega

theorem toNat_packetLength {length : BitVec 32} (h : length.toNat ≤ maxMailSize) :
    (length + BitVec.ofNat 32 sizeofHeader).toNat = length.toNat + sizeofHeader := by
  have hmax : maxMailSize = 40 := rfl
  have hsize : sizeofHeader = 12 := rfl
  rw [BitVec.toNat_add, BitVec.toNat_ofNat, hsize]
  omega

theorem contains_concat (l : Letter) (garbage : Buffer) :
    Contains (bcopy l.data (bcopy l.mailHdr.bytes garbage 0 sizeofHeader) sizeofHeader
      l.mailHdr.length.toNat) l := by
  refine ⟨fun k hk => ?_, fun k hk => bcopy_inside hk⟩
  rw [bcopy_before hk, bcopy_zero hk]

theorem Contains.transfer {buffer buffer' : Buffer} (h : Contains buffer l)
    (heq : ∀ k < l.mailHdr.length.toNat + sizeofHeader, buffer' k = buffer k) :
    Contains buffer' l := by
  refine ⟨fun k hk => ?_, fun k hk => ?_⟩
  · rw [heq k (by omega), h.1 k hk]
  · rw [heq (sizeofHeader + k) (by omega), h.2 k hk]

/-- INTERNAL: what the network puts on the wire: the header and, behind it, the data. -/
theorem network_send_spec (net : Network) (hdr : PacketHeader) (data garbage : Buffer)
    (hidle : net.sendBusy = false) (hpos : 0 < hdr.length.toNat)
    (hle : hdr.length.toNat ≤ maxPacketSize) (hfrom : hdr.from_ = net.ident) :
    ∃ frame, net.send hdr data garbage =
        some ({ net with scheduled := net.scheduled + 1 }, frame) ∧
      PacketHeader.ofBytes (wireBytes frame) = hdr ∧
      ∀ k < hdr.length.toNat, wireBytes frame (sizeofHeader + k) = data k := by
  have hpacket : maxPacketSize = 52 := rfl
  have hwire : maxWireSize = 64 := rfl
  have hheader : sizeofHeader = 12 := rfl
  have hbytes : ∀ buffer : Buffer, ∀ k < maxWireSize,
      wireBytes (fun i => buffer i) k = buffer k := fun buffer k hk => dif_pos hk
  refine ⟨_, if_pos ⟨hidle, hpos, hle, hfrom⟩, ?_, fun k hk => ?_⟩
  · have hhdr : ∀ k < sizeofHeader, wireBytes (fun i => bcopy data
        (bcopy hdr.bytes garbage 0 sizeofHeader) sizeofHeader hdr.length.toNat i) k =
          headerBytes hdr.to_ hdr.from_ hdr.length k := by
      intro k hk
      rw [hbytes _ k (by omega), bcopy_before hk, bcopy_zero hk]
      rfl
    obtain ⟨hto, hfrom', hlength⟩ := words_of_headerBytes hhdr
    unfold PacketHeader.ofBytes
    rw [hto, hfrom', hlength]
  · rw [hbytes _ _ (by omega), bcopy_inside hk]

/-- INTERNAL: **the frame of a `Send` carries the letter.**
SRCLINE: network/post.cc:261-284, machine/network.cc:103-127 -/
theorem send_spec (hident : po.network.ident = l.sender) (haddr : po.netAddr = l.sender)
    (hidle : po.network.sendBusy = false)
    (hbox : 0 ≤ l.mailHdr.to_.toInt ∧ l.mailHdr.to_.toInt < po.numBoxes)
    (hsize : l.mailHdr.length.toNat ≤ maxMailSize) (garbage garbage' : Buffer) :
    ∃ frame, po.send l.pktHdr l.mailHdr l.data garbage garbage' =
        some ({ po with network.scheduled := po.network.scheduled + 1 }, frame) ∧
      FrameOf l frame := by
  have hlen := toNat_packetLength hsize
  have hmax : maxMailSize = 40 := rfl
  have hpacket : maxPacketSize = 52 := rfl
  have hheader : sizeofHeader = 12 := rfl
  obtain ⟨frame, hsend, hhdr, hdata⟩ := network_send_spec po.network
    ⟨l.pktHdr.to_, po.netAddr, l.mailHdr.length + BitVec.ofNat 32 sizeofHeader⟩
    (bcopy l.data (bcopy l.mailHdr.bytes garbage 0 sizeofHeader) sizeofHeader
      l.mailHdr.length.toNat) garbage' hidle (by rw [hlen]; omega) (by rw [hlen]; omega)
    (haddr.trans hident.symm)
  refine ⟨frame, ?_, ?_, ?_⟩
  · unfold PostOffice.send
    rw [if_pos ⟨hsize, hbox⟩]
    dsimp only
    rw [hsend]
    rfl
  · rw [hhdr, haddr]
    rfl
  · refine (contains_concat l garbage).transfer fun k hk => hdata k ?_
    rw [hlen]
    exact hk

/-- The device holds the letter. -/
structure Buffered (net : Network) (l : Letter) : Prop where
  header : net.inHdr = (mailOf l).pktHdr
  content : Contains net.inbox l

theorem Buffered.length_eq (h : Buffered net l) (hsize : l.mailHdr.length.toNat ≤ maxMailSize) :
    net.inHdr.length.toNat = l.mailHdr.length.toNat + sizeofHeader := by
  rw [h.header]
  exact toNat_packetLength hsize

theorem Buffered.length_ne (h : Buffered net l) (hsize : l.mailHdr.length.toNat ≤ maxMailSize) :
    net.inHdr.length ≠ 0#32 := by
  intro hzero
  have hlen := h.length_eq hsize
  have hheader : sizeofHeader = 12 := rfl
  rw [hzero] at hlen
  have : (0#32).toNat = 0 := rfl
  omega

/-- INTERNAL: a frame with a letter for this machine passes the assertion of the poll. -/
theorem checkPktAvail_spec {nBoxes : ℤ} {frame : Frame} (hl : Addressed nBoxes net.ident l)
    (hframe : FrameOf l frame) :
    ∃ net', net.checkPktAvail frame = some net' ∧ Buffered net' l ∧ net'.ident = net.ident ∧
      net'.sendBusy = net.sendBusy := by
  have hlen := toNat_packetLength hl.size
  have hsize := hl.size
  have hmax : maxMailSize = 40 := rfl
  have hpacket : maxPacketSize = 52 := rfl
  have hheader : sizeofHeader = 12 := rfl
  have hle : (mailOf l).pktHdr.length.toNat ≤ maxPacketSize := by
    show (l.mailHdr.length + BitVec.ofNat 32 sizeofHeader).toNat ≤ _
    omega
  have hassert : (PacketHeader.ofBytes (wireBytes frame)).to_ = net.ident ∧
      (PacketHeader.ofBytes (wireBytes frame)).length.toNat ≤ maxPacketSize := by
    rw [hframe.1]
    exact ⟨hl.machine, hle⟩
  have hcheck : net.checkPktAvail frame = some { net with
      inHdr := PacketHeader.ofBytes (wireBytes frame)
      inbox := bcopy (fun k => wireBytes frame (sizeofHeader + k)) net.inbox 0
        (PacketHeader.ofBytes (wireBytes frame)).length.toNat } :=
    if_pos hassert
  refine ⟨_, hcheck, ⟨hframe.1, ?_⟩, rfl, rfl⟩
  dsimp only
  rw [hframe.1]
  refine hframe.2.transfer fun k hk => bcopy_zero ?_
  show k < (l.mailHdr.length + BitVec.ofNat 32 sizeofHeader).toNat
  omega

/-- INTERNAL: the postal worker finds the letter in the buffer and puts the mail into its box. -/
theorem deliver_spec (hl : Addressed po.numBoxes a l) (hbuffered : Buffered po.network l) :
    ∃ buffer, po.deliver = some (PostOffice.put
      { po with
        network.inHdr.length := 0#32
        buffer := buffer
        workerPc := .messageAvailable } l.mailHdr.to_.toInt (mailOf l)) := by
  have hlen := hbuffered.length_eq hl.size
  have hcontains : Contains (bcopy po.network.inbox po.buffer 0 po.network.inHdr.length.toNat) l :=
    hbuffered.content.transfer fun k hk => bcopy_zero (by rw [hlen]; exact hk)
  have hmail : MailHeader.ofBytes
      (bcopy po.network.inbox po.buffer 0 po.network.inHdr.length.toNat) = l.mailHdr := by
    obtain ⟨hto, hfrom, hlength'⟩ := words_of_headerBytes hcontains.1
    unfold MailHeader.ofBytes
    rw [hto, hfrom, hlength']
  refine ⟨bcopy po.network.inbox po.buffer 0 po.network.inHdr.length.toNat, ?_⟩
  unfold PostOffice.deliver Network.receive
  dsimp only
  rw [if_pos (hbuffered.length_ne hl.size), hmail, if_pos ⟨hl.box.1, hl.box.2, hl.size⟩]
  unfold Mail.new
  rw [if_pos hl.size, Option.map_some]
  have hdata : (List.range l.mailHdr.length.toNat).map (fun k =>
      bcopy po.network.inbox po.buffer 0 po.network.inHdr.length.toNat (sizeofHeader + k)) =
        (List.range l.mailHdr.length.toNat).map l.data :=
    List.map_congr_left fun k hk => hcontains.2 k (List.mem_range.mp hk)
  rw [hdata, hbuffered.header]
  rfl

/-! ## The office -/

/-- The mail for `box` that the letters should become. -/
def boxOf (letters : List Letter) (box : ℤ) : List Mail :=
  (letters.filter fun l => l.mailHdr.to_.toInt = box).map mailOf

/-- Who has the buffer of the device, and the letter in it. -/
inductive WorkerPhase (po : PostOffice) : List Letter → Prop
  | free (hlength : po.network.inHdr.length = 0#32) (hv : po.messageAvailable.value = 0#32)
      (hpc : po.workerPc = .messageAvailable)
      (hq : po.messageAvailable.queue = [] ∨ po.messageAvailable.queue = [po.postalWorker]) :
      WorkerPhase po []
  | arrived (l : Letter) (hbuffered : Buffered po.network l)
      (hv : po.messageAvailable.value = 1#32) (hpc : po.workerPc = .messageAvailable)
      (hq : po.messageAvailable.queue = []) : WorkerPhase po [l]
  | inHand (l : Letter) (hbuffered : Buffered po.network l)
      (hv : po.messageAvailable.value = 0#32) (hpc : po.workerPc = .receive)
      (hq : po.messageAvailable.queue = []) : WorkerPhase po [l]

/-- INTERNAL: what holds at the post office of machine `a`.
SRCLINE: network/post.cc:221-345, machine/network.cc:60-139 -/
structure OfficeInv (nBoxes : ℤ) (a : NetworkAddress) (po : PostOffice) : Prop where
  alive : po.failed = false
  ident : po.network.ident = a
  addr : po.netAddr = a
  size : po.numBoxes = nBoxes
  idle : po.network.sendBusy = false
  letters : ∀ l ∈ po.read, Addressed nBoxes a l
  boxes : ∀ box, po.boxes box <:+ po.delivered box
  queue : ∃ done pending, po.read = done ++ pending ∧ WorkerPhase po pending ∧
    ∀ box, po.delivered box = boxOf done box

theorem boxOf_append (letters : List Letter) (l : Letter) (box : ℤ) :
    boxOf (letters ++ [l]) box =
      boxOf letters box ++ if l.mailHdr.to_.toInt = box then [mailOf l] else [] := by
  unfold boxOf
  rw [List.filter_append, List.map_append]
  by_cases h : l.mailHdr.to_.toInt = box <;> simp [h]

theorem WorkerPhase.same {po po' : PostOffice} {pending : List Letter} (h : WorkerPhase po pending)
    (hhdr : po'.network.inHdr = po.network.inHdr) (hinbox : po'.network.inbox = po.network.inbox)
    (hsem : po'.messageAvailable = po.messageAvailable)
    (hworker : po'.postalWorker = po.postalWorker) (hpc : po'.workerPc = po.workerPc) :
    WorkerPhase po' pending := by
  have hbuffered : ∀ {l}, Buffered po.network l → Buffered po'.network l := fun hb =>
    ⟨hhdr.trans hb.header, hinbox ▸ hb.content⟩
  cases h with
  | free hlength hv hpc' hq =>
    exact .free (by rw [hhdr, hlength]) (by rw [hsem, hv]) (hpc.trans hpc')
      (by rw [hsem, hworker]; exact hq)
  | arrived l hb hv hpc' hq =>
    exact .arrived l (hbuffered hb) (by rw [hsem, hv]) (hpc.trans hpc') (by rw [hsem, hq])
  | inHand l hb hv hpc' hq =>
    exact .inHand l (hbuffered hb) (by rw [hsem, hv]) (hpc.trans hpc') (by rw [hsem, hq])

theorem OfficeInv.sending {nBoxes : ℤ} {po po' : PostOffice} (h : OfficeInv nBoxes a po)
    (hfailed : po'.failed = po.failed)
    (hnet : po'.network = { po.network with scheduled := po'.network.scheduled })
    (haddr : po'.netAddr = po.netAddr) (hsize : po'.numBoxes = po.numBoxes)
    (hsem : po'.messageAvailable = po.messageAvailable)
    (hworker : po'.postalWorker = po.postalWorker) (hpc : po'.workerPc = po.workerPc)
    (hboxes : po'.boxes = po.boxes) (hread : po'.read = po.read)
    (hdelivered : po'.delivered = po.delivered) : OfficeInv nBoxes a po' := by
  obtain ⟨done, pending, hletters, hphase, hdone⟩ := h.queue
  refine ⟨hfailed.trans h.alive, by rw [hnet]; exact h.ident, haddr.trans h.addr,
    hsize.trans h.size, by rw [hnet]; exact h.idle, hread ▸ h.letters, ?_,
    done, pending, hread.trans hletters, ?_, hdelivered ▸ hdone⟩
  · rw [hboxes, hdelivered]
    exact h.boxes
  · exact hphase.same (by rw [hnet]) (by rw [hnet]) hsem hworker hpc

theorem OfficeInv.addressed {nBoxes : ℤ} (h : OfficeInv nBoxes a po) {done : List Letter}
    (hletters : po.read = done ++ [l]) : Addressed nBoxes a l :=
  h.letters l (by rw [hletters]; exact List.mem_append_right _ List.mem_cons_self)

/-- INTERNAL: **the poll reads a packet into a free buffer**, and the worker is told.
SRCLINE: machine/network.cc:60-87, network/post.cc:325-329 -/
theorem OfficeInv.incoming {nBoxes : ℤ} (h : OfficeInv nBoxes a po)
    (hfree : po.network.inHdr.length = 0#32) {packet : Packet}
    (hl : Addressed nBoxes a packet.letter) (hframe : FrameOf packet.letter packet.frame) :
    OfficeInv nBoxes a (po.incomingPacket packet) := by
  obtain ⟨net', hcheck, hbuffered, hident, hidle⟩ :=
    checkPktAvail_spec (h.ident.symm ▸ hl) hframe
  have hin : po.incomingPacket packet = { po with
      network := net'
      messageAvailable := po.messageAvailable.v.1
      read := po.read ++ [packet.letter] } := by
    unfold PostOffice.incomingPacket
    rw [hcheck]
  obtain ⟨done, pending, hletters, hphase, hdone⟩ := h.queue
  rw [hin]
  have hletters' : ∀ l ∈ po.read ++ [packet.letter], Addressed nBoxes a l := by
    intro l hmem
    rcases List.mem_append.mp hmem with hmem | hmem
    · exact h.letters l hmem
    · rw [List.mem_singleton.mp hmem]
      exact hl
  cases hphase with
  | free hlength hv hpc hq =>
    refine ⟨h.alive, hident.trans h.ident, h.addr, h.size, hidle.trans h.idle, hletters', h.boxes,
      done, [packet.letter], ?_, .arrived packet.letter hbuffered ?_ hpc ?_, hdone⟩
    · rw [hletters, List.append_nil]
    · show po.messageAvailable.v.1.value = 1#32
      rw [Semaphore.value_v, hv]
      rfl
    · show po.messageAvailable.v.1.queue = []
      unfold Semaphore.v
      rcases hq with hq | hq <;> rw [hq]
  | arrived l hb hv hpc hq => exact absurd hfree (hb.length_ne (h.addressed hletters).size)
  | inHand l hb hv hpc hq => exact absurd hfree (hb.length_ne (h.addressed hletters).size)

theorem postalDelivery_waits (hpc : po.workerPc = .messageAvailable)
    (hv : po.messageAvailable.value = 0#32) :
    po.postalDelivery = { po with messageAvailable.queue :=
      po.messageAvailable.queue ++ [po.postalWorker] } := by
  simp only [PostOffice.postalDelivery, hpc, Semaphore.p_of_zero _ hv]

theorem postalDelivery_goes (hpc : po.workerPc = .messageAvailable)
    (hv : po.messageAvailable.value ≠ 0#32) :
    po.postalDelivery = { po with
      messageAvailable.value := po.messageAvailable.value - 1#32
      workerPc := .receive } := by
  simp only [PostOffice.postalDelivery, hpc, Semaphore.p_of_ne_zero _ hv]

theorem postalDelivery_puts (hpc : po.workerPc = .receive) (hl : Addressed po.numBoxes a l)
    (hb : Buffered po.network l) :
    ∃ buffer, po.postalDelivery = PostOffice.put
      { po with
        network.inHdr.length := 0#32
        buffer := buffer
        workerPc := .messageAvailable } l.mailHdr.to_.toInt (mailOf l) := by
  obtain ⟨buffer, hdeliver⟩ := deliver_spec hl hb
  refine ⟨buffer, ?_⟩
  simp only [PostOffice.postalDelivery, hpc, hdeliver, Option.getD_some]

theorem delivered_put {letters : List Letter} (h : ∀ box, po.delivered box = boxOf letters box)
    (l : Letter) (box : ℤ) :
    (po.put l.mailHdr.to_.toInt (mailOf l)).delivered box = boxOf (letters ++ [l]) box := by
  rw [boxOf_append, ← h box]
  by_cases hbox : box = l.mailHdr.to_.toInt
  · subst hbox
    rw [if_pos rfl]
    exact Function.update_self _ _ _
  · rw [if_neg (Ne.symm hbox), List.append_nil]
    exact Function.update_of_ne hbox _ _

theorem boxes_put (h : ∀ box, po.boxes box <:+ po.delivered box) (to_ : ℤ) (mail : Mail) (box : ℤ) :
    (po.put to_ mail).boxes box <:+ (po.put to_ mail).delivered box := by
  by_cases hbox : box = to_
  · subst hbox
    simp only [PostOffice.put, Function.update_self]
    obtain ⟨before, hbefore⟩ := h box
    exact ⟨before, by rw [← List.append_assoc, hbefore]⟩
  · simp only [PostOffice.put, Function.update_of_ne hbox]
    exact h box

/-- INTERNAL: whatever the postal worker does when it runs keeps the invariant. -/
theorem OfficeInv.worker {nBoxes : ℤ} (h : OfficeInv nBoxes a po)
    (hawake : po.messageAvailable.queue.contains po.postalWorker = false) :
    OfficeInv nBoxes a po.postalDelivery := by
  obtain ⟨done, pending, hletters, hphase, hdone⟩ := h.queue
  cases hphase with
  | free hlength hv hpc hq =>
    have hq' : po.messageAvailable.queue = [] := by
      refine hq.resolve_right fun hq => ?_
      rw [hq] at hawake
      simp at hawake
    rw [postalDelivery_waits hpc hv]
    refine ⟨h.alive, h.ident, h.addr, h.size, h.idle, h.letters, h.boxes, done, [], hletters,
      .free hlength hv hpc (Or.inr ?_), hdone⟩
    show po.messageAvailable.queue ++ [po.postalWorker] = [po.postalWorker]
    rw [hq', List.nil_append]
  | arrived l hb hv hpc hq =>
    rw [postalDelivery_goes hpc (by rw [hv]; decide)]
    refine ⟨h.alive, h.ident, h.addr, h.size, h.idle, h.letters, h.boxes, done, [l], hletters,
      .inHand l hb ?_ rfl hq, hdone⟩
    show po.messageAvailable.value - 1#32 = 0#32
    rw [hv]
    rfl
  | inHand l hb hv hpc hq =>
    obtain ⟨buffer, hput⟩ := postalDelivery_puts hpc (h.size ▸ h.addressed hletters) hb
    rw [hput]
    exact ⟨h.alive, h.ident, h.addr, h.size, h.idle, h.letters, boxes_put h.boxes _ _, done ++ [l],
      [], by rw [List.append_nil]; exact hletters, .free rfl hv rfl (Or.inl hq),
      delivered_put hdone l⟩

/-- INTERNAL: mail is taken out of a box that has some. -/
theorem OfficeInv.receive {nBoxes : ℤ} (h : OfficeInv nBoxes a po) {box : ℤ}
    (hbox : 0 ≤ box ∧ box < po.numBoxes) (hsome : po.boxes box ≠ []) :
    OfficeInv nBoxes a (po.receive box) := by
  obtain ⟨done, pending, hletters, hphase, hdone⟩ := h.queue
  unfold PostOffice.receive
  rw [if_pos hbox]
  split
  · next hnone => exact absurd hnone hsome
  · next mail rest hboxes =>
    have hmail : mail ∈ boxOf done box := by
      rw [← hdone box]
      exact (h.boxes box).subset (by rw [hboxes]; exact List.mem_cons_self)
    obtain ⟨l, hl, rfl⟩ := List.mem_map.mp hmail
    have hread : l ∈ po.read := by
      rw [hletters]
      exact List.mem_append_left _ (List.mem_filter.mp hl).1
    rw [if_pos (show (mailOf l).mailHdr.length.toNat ≤ maxMailSize from (h.letters l hread).size)]
    refine ⟨h.alive, h.ident, h.addr, h.size, h.idle, h.letters, fun other => ?_,
      done, pending, hletters, hphase.same rfl rfl rfl rfl rfl, hdone⟩
    by_cases hother : other = box
    · subst hother
      simp only [Function.update_self]
      refine List.IsSuffix.trans ?_ (h.boxes other)
      rw [hboxes]
      exact List.suffix_cons _ _
    · simp only [Function.update_of_ne hother]
      exact h.boxes other

/-! ## Runs -/

/-- A `Send` is for a box that there is, and a thread that takes mail finds some. -/
def Proper (nBoxes : NetworkAddress → ℤ) (s : NetState) : NetEvent → Prop
  | .send a _ pktHdr mailHdr _ _ _ _ =>
    mailHdr.length.toNat ≤ maxMailSize ∧ 0 ≤ mailHdr.to_.toInt ∧ mailHdr.to_.toInt < nBoxes a ∧
      mailHdr.to_.toInt < nBoxes pktHdr.to_
  | .receive a box => 0 ≤ box ∧ box < nBoxes a ∧ (s.office a).boxes box ≠ []
  | _ => True

/-- INTERNAL: what holds everywhere: the offices, and what is on its way.
SRCLINE: network/post.cc:221-345, machine/network.cc:60-139 -/
structure NetInv (nBoxes : NetworkAddress → ℤ) (s : NetState) : Prop where
  office : ∀ a, OfficeInv (nBoxes a) a (s.office a)
  socket : ∀ a, ∀ p ∈ s.socket a, Addressed (nBoxes a) a p.letter ∧ FrameOf p.letter p.frame

theorem NetInv.setOffice (h : NetInv nBoxes s) (hpo : OfficeInv (nBoxes a) a po) :
    NetInv nBoxes (s.setOffice a po) := by
  refine ⟨fun b => ?_, h.socket⟩
  by_cases hb : b = a
  · subst hb
    simp only [NetState.setOffice, Function.update_self]
    exact hpo
  · simp only [NetState.setOffice, Function.update_of_ne hb]
    exact h.office b

theorem NetInv.setSocket (h : NetInv nBoxes s) {packets : List Packet}
    (hpackets : ∀ p ∈ packets, Addressed (nBoxes a) a p.letter ∧ FrameOf p.letter p.frame) :
    NetInv nBoxes { s with socket := Function.update s.socket a packets } := by
  refine ⟨h.office, fun b => ?_⟩
  by_cases hb : b = a
  · subst hb
    simp only [Function.update_self]
    exact hpackets
  · simp only [Function.update_of_ne hb]
    exact h.socket b

/-- INTERNAL: a `Send` puts a frame with its letter on the socket, or the network loses it. -/
theorem NetInv.send (h : NetInv nBoxes s) (t : ThreadId) {pktHdr : PacketHeader}
    {mailHdr : MailHeader} (data : Buffer) (works : Bool) (garbage garbage' : Buffer)
    (hsize : mailHdr.length.toNat ≤ maxMailSize) (hnonneg : 0 ≤ mailHdr.to_.toInt)
    (hhere : mailHdr.to_.toInt < nBoxes a) (hthere : mailHdr.to_.toInt < nBoxes pktHdr.to_) :
    NetInv nBoxes (s.send a t pktHdr mailHdr data works garbage garbage') := by
  have ho := h.office a
  obtain ⟨frame, hsend, hframe⟩ := send_spec (l := ⟨a, pktHdr, mailHdr, data⟩) ho.ident ho.addr
    ho.idle ⟨hnonneg, ho.size.symm ▸ hhere⟩ hsize garbage garbage'
  have hoffice : OfficeInv (nBoxes a) a
      { s.office a with
        network.scheduled := (s.office a).network.scheduled + 1
        sending := Function.update (s.office a).sending t true } :=
    ho.sending rfl rfl rfl rfl rfl rfl rfl rfl rfl rfl
  unfold NetState.send
  rw [hsend]
  dsimp only
  split
  · refine (h.setOffice hoffice).setSocket fun p hp => ?_
    rcases List.mem_append.mp hp with hp | hp
    · exact h.socket _ p hp
    · rw [List.mem_singleton.mp hp]
      exact ⟨⟨rfl, ⟨hnonneg, hthere⟩, hsize⟩, hframe⟩
  · exact h.setOffice hoffice

theorem NetInv.checkPktAvail (h : NetInv nBoxes s) (a : NetworkAddress) :
    NetInv nBoxes (s.checkPktAvail a) := by
  unfold NetState.checkPktAvail
  split
  · exact h
  · next hfree =>
    split
    · exact h
    · next packet rest hsocket =>
      have hin : ∀ p ∈ packet :: rest, Addressed (nBoxes a) a p.letter ∧ FrameOf p.letter p.frame :=
        hsocket ▸ h.socket a
      obtain ⟨hl, hframe⟩ := hin packet List.mem_cons_self
      exact (h.setOffice ((h.office a).incoming (not_not.mp hfree) hl hframe)).setSocket
        fun p hp => hin p (List.mem_cons_of_mem _ hp)

/-- INTERNAL: the invariant over one event. -/
theorem NetInv.step {s s' : NetState} {e : NetEvent} (h : NetInv nBoxes s) (he : Proper nBoxes s e)
    (hs : s.step e = some s') : NetInv nBoxes s' := by
  unfold NetState.step at hs
  rw [Option.ite_none_left_eq_some] at hs
  obtain ⟨-, hs⟩ := hs
  cases e with
  | send a t pktHdr mailHdr data works garbage garbage' =>
    simp only [Option.ite_none_left_eq_some, Option.some.injEq] at hs
    obtain ⟨-, rfl⟩ := hs
    obtain ⟨hsize, hnonneg, hhere, hthere⟩ := he
    exact h.send t data works garbage garbage' hsize hnonneg hhere hthere
  | sent a t =>
    simp only [Option.ite_none_right_eq_some, Option.some.injEq] at hs
    obtain ⟨-, rfl⟩ := hs
    refine h.setOffice ?_
    unfold PostOffice.sent
    split <;> exact (h.office a).sending rfl rfl rfl rfl rfl rfl rfl rfl rfl rfl
  | sendDone a =>
    simp only [Option.ite_none_left_eq_some, Option.some.injEq] at hs
    obtain ⟨-, rfl⟩ := hs
    refine h.setOffice ((h.office a).sending rfl ?_ rfl rfl rfl rfl rfl rfl rfl rfl)
    simp only [Network.sendDone, (h.office a).idle]
  | checkPktAvail a =>
    cases hs
    exact h.checkPktAvail a
  | postalDelivery a =>
    simp only [Option.ite_none_left_eq_some, Option.some.injEq, Bool.not_eq_true] at hs
    obtain ⟨hawake, rfl⟩ := hs
    exact h.setOffice ((h.office a).worker hawake)
  | receive a box =>
    cases hs
    obtain ⟨hnonneg, hlt, hsome⟩ := he
    exact h.setOffice ((h.office a).receive ⟨hnonneg, (h.office a).size.symm ▸ hlt⟩ hsome)
  | lose a i =>
    cases hs
    exact h.setSocket fun p hp => h.socket a p (List.mem_of_mem_eraseIdx hp)

/-- The post office at `a` works, every letter whose packet was read is in its box in the order in
which they were read, except for at most one, and the postal worker delivers that one next. -/
structure MailDelivered (s : NetState) (a : NetworkAddress) : Prop where
  alive : (s.office a).failed = false
  inOrder : ∃ done pending, (s.office a).read = done ++ pending ∧ pending.length ≤ 1 ∧
    ∀ box, (s.office a).delivered box = boxOf done box
  held : ∀ box, (s.office a).boxes box <:+ (s.office a).delivered box
  next : ∃ n s', run NetState.step s (List.replicate n (.postalDelivery a)) = some s' ∧
    (s'.office a).read = (s.office a).read ∧
    ∀ box, (s'.office a).delivered box = boxOf (s.office a).read box

theorem step_postalDelivery (halive : (s.office a).failed = false)
    (hq : (s.office a).messageAvailable.queue = []) :
    s.step (.postalDelivery a) = some (s.setOffice a (s.office a).postalDelivery) := by
  unfold NetState.step NetEvent.machine
  simp only [halive, hq, Bool.false_eq_true, if_false, List.contains_nil]

theorem office_setOffice (s : NetState) (a : NetworkAddress) (po : PostOffice) :
    (s.setOffice a po).office a = po := Function.update_self _ _ _

theorem NetInv.next_of_inHand (h : NetInv nBoxes s) {done : List Letter}
    (hletters : (s.office a).read = done ++ [l])
    (hdone : ∀ box, (s.office a).delivered box = boxOf done box)
    (hb : Buffered (s.office a).network l) (hpc : (s.office a).workerPc = .receive)
    (hq : (s.office a).messageAvailable.queue = []) :
    ∃ s', s.step (.postalDelivery a) = some s' ∧ (s'.office a).read = (s.office a).read ∧
      ∀ box, (s'.office a).delivered box = boxOf (s.office a).read box := by
  have ho := h.office a
  obtain ⟨buffer, hput⟩ := postalDelivery_puts hpc (ho.size.symm ▸ ho.addressed hletters) hb
  refine ⟨_, step_postalDelivery ho.alive hq, ?_, ?_⟩
  · rw [office_setOffice, hput]
    rfl
  · rw [office_setOffice, hput, hletters]
    exact delivered_put hdone l

theorem NetInv.mailDelivered (h : NetInv nBoxes s) (a : NetworkAddress) : MailDelivered s a := by
  have ho := h.office a
  obtain ⟨done, pending, hletters, hphase, hdone⟩ := ho.queue
  refine ⟨ho.alive, ⟨done, pending, hletters, ?_, hdone⟩, ho.boxes, ?_⟩
  · cases hphase <;> simp
  · cases hphase with
    | free hlength hv hpc hq =>
      refine ⟨0, s, rfl, rfl, ?_⟩
      rw [hletters, List.append_nil]
      exact hdone
    | inHand l hb hv hpc hq =>
      obtain ⟨s', hstep, hread, hall⟩ := h.next_of_inHand hletters hdone hb hpc hq
      exact ⟨1, s', run_cons_eq_some.mpr ⟨s', hstep, rfl⟩, hread, hall⟩
    | arrived l hb hv hpc hq =>
      -- the worker passes its `P` and then delivers
      have hgo := step_postalDelivery ho.alive hq
      rw [postalDelivery_goes hpc (by rw [hv]; decide)] at hgo
      have h₁ := h.step (e := .postalDelivery a) trivial hgo
      have hletters₁ : (NetState.office (s.setOffice a { s.office a with
          messageAvailable.value := (s.office a).messageAvailable.value - 1#32
          workerPc := .receive }) a).read = done ++ [l] := by
        rw [office_setOffice]
        exact hletters
      obtain ⟨s', hstep, hread, hall⟩ := h₁.next_of_inHand hletters₁
        (by rw [office_setOffice]; exact hdone) (by rw [office_setOffice]; exact hb)
        (by rw [office_setOffice]) (by rw [office_setOffice]; exact hq)
      rw [office_setOffice] at hread hall
      exact ⟨2, s', run_cons_eq_some.mpr ⟨_, hgo, run_cons_eq_some.mpr ⟨s', hstep, rfl⟩⟩, hread,
        hall⟩

theorem netInv_init (nBoxes : NetworkAddress → ℤ) (postalWorker : NetworkAddress → ThreadId)
    (inHdr : NetworkAddress → PacketHeader) (inbox buffer : NetworkAddress → Buffer) :
    NetInv nBoxes (NetState.init nBoxes postalWorker inHdr inbox buffer) := by
  refine ⟨fun a => ⟨rfl, rfl, rfl, rfl, rfl, fun l hl => ?_, fun _ => List.suffix_refl _,
    [], [], rfl, .free rfl rfl rfl (Or.inl rfl), fun _ => rfl⟩, fun a p hp => ?_⟩
  · exact absurd hl List.not_mem_nil
  · exact absurd hp List.not_mem_nil

/-- SOURCE: network/post.cc:99-107, 221-345, machine/network.cc:60-139 — for any number of machines
with any numbers of boxes and any interleaving of `Send`s to boxes that there are, of interrupts,
of the postal workers and of threads that take mail, over sockets that lose packets: every packet
read from a socket is put once into the box named in its header, in the order in which they were
read, with the sender's address and the headers and data of the `Send`. -/
theorem mail_is_delivered (nBoxes : NetworkAddress → ℤ) (postalWorker : NetworkAddress → ThreadId)
    (inHdr : NetworkAddress → PacketHeader) (inbox buffer : NetworkAddress → Buffer)
    {es : List NetEvent}
    (hes : Meets NetState.step (Proper nBoxes)
      (NetState.init nBoxes postalWorker inHdr inbox buffer) es) :
    Always NetState.step (fun s => ∀ a, MailDelivered s a)
      (NetState.init nBoxes postalWorker inHdr inbox buffer) es :=
  always_of_meets (fun _ h a => h.mailDelivered a) (fun _ _ _ h he hs => h.step he hs)
    (netInv_init nBoxes postalWorker inHdr inbox buffer) hes

/-- Machine 1 sends two bytes to box 0 of machine 2, which polls its socket and delivers. -/
def oneLetter : List NetEvent :=
  [.send 1#32 0 ⟨2#32, 0#32, 0#32⟩ ⟨0#32, 1#32, 2#32⟩ (fun _ => 0x61#8) true (fun _ => 0#8)
    (fun _ => 0#8), .checkPktAvail 2#32, .postalDelivery 2#32, .postalDelivery 2#32]

/-- SOURCE: network/nettest.cc:33-72 — a letter from machine 1 to box 0 of machine 2, where each
has ten boxes. -/
theorem mail_is_delivered_one_letter :
    Always NetState.step (fun s => ∀ a, MailDelivered s a)
      (NetState.init (fun _ => 10) (fun _ => 0) (fun _ => ⟨0#32, 0#32, 0#32⟩) (fun _ _ => 0#8)
        (fun _ _ => 0#8)) oneLetter := by
  refine mail_is_delivered _ _ _ _ _ (meets_of_forall (fun s e he => ?_) _)
  simp only [oneLetter, List.mem_cons, List.not_mem_nil, or_false] at he
  rcases he with rfl | rfl | rfl | rfl
  · exact ⟨by decide, by decide, by decide, by decide⟩
  all_goals trivial

/-- The mail is in box 0 afterwards. -/
example : (run NetState.step (NetState.init (fun _ => 10) (fun _ => 0)
    (fun _ => ⟨0#32, 0#32, 0#32⟩) (fun _ _ => 0#8) (fun _ _ => 0#8)) oneLetter).map
      (fun s => (s.office 2#32).boxes 0) =
    some [⟨⟨2#32, 1#32, 14#32⟩, ⟨0#32, 1#32, 2#32⟩, [0x61#8, 0x61#8]⟩] := by
  decide +kernel

end Nachos.Analysis
