import Nachos.Model.OpenFile
import Nachos.Model.Semaphore

/-!
# `Network` (machine/network.cc) and `PostOffice` (network/post.cc)

A message goes through two layers. `PostOffice::Send` puts a `MailHeader` before the data and
hands both to the network, which puts a `PacketHeader` before them, pads the whole to
`MaxWireSize` and gives it to the socket of the machine it is for. On that machine a poll takes
one packet off the socket into `inHdr` and `inbox`, if `inHdr.length` says that they are free, and
raises `messageAvailable`; the thread in `PostalDelivery` empties them and appends the message to
a mailbox.

There is a post office at every address; all of them take part in one run. `Lock` and
`Condition` are those of threads/synch.cc:100-112: `Acquire`, `Release` and `Signal` have empty
bodies and `Wait` is `ASSERT(FALSE)`. So between two tests of a semaphore nothing else runs on the
machine, and every event below is one such stretch of code or one interrupt.
-/

set_option autoImplicit false

namespace Nachos.Model

open Nachos.Library

/-- `NetworkAddress` (network.h:23). -/
abbrev NetworkAddress : Type := BitVec 32

/-- class `PacketHeader` (network.h:31-38). -/
structure PacketHeader where
  to_ : NetworkAddress
  from_ : NetworkAddress
  length : BitVec 32
deriving DecidableEq, Repr

/-- class `MailHeader` (post.h:42-48). -/
structure MailHeader where
  to_ : BitVec 32
  from_ : BitVec 32
  length : BitVec 32
deriving DecidableEq, Repr

/-- `sizeof(PacketHeader)` and `sizeof(MailHeader)`: three words. -/
def sizeofHeader : ℕ := 12

/-- `MaxWireSize` (network.h:40). -/
def maxWireSize : ℕ := 64

/-- `MaxPacketSize` (network.h:41). -/
def maxPacketSize : ℕ := maxWireSize - sizeofHeader

/-- `MaxMailSize` (post.h:53). -/
def maxMailSize : ℕ := maxPacketSize - sizeofHeader

/-- Three words in memory. -/
def headerBytes (a b c : BitVec 32) : Buffer :=
  bytesOf fun i => if i = 0 then a else if i = 1 then b else c

/-- A `PacketHeader` in memory. -/
def PacketHeader.bytes (hdr : PacketHeader) : Buffer := headerBytes hdr.to_ hdr.from_ hdr.length

/-- `*(PacketHeader *)buffer`. -/
def PacketHeader.ofBytes (buffer : Buffer) : PacketHeader :=
  ⟨wordAt buffer 0, wordAt buffer 1, wordAt buffer 2⟩

/-- A `MailHeader` in memory. -/
def MailHeader.bytes (hdr : MailHeader) : Buffer := headerBytes hdr.to_ hdr.from_ hdr.length

/-- `*(MailHeader *)buffer`. -/
def MailHeader.ofBytes (buffer : Buffer) : MailHeader :=
  ⟨wordAt buffer 0, wordAt buffer 1, wordAt buffer 2⟩

/-- `bcopy(from, to + start, length)`. -/
def bcopy (from_ to_ : Buffer) (start length : ℕ) : Buffer := fun k =>
  if start ≤ k ∧ k < start + length then from_ (k - start) else to_ k

/-- The bytes on the wire. -/
abbrev Frame : Type := Fin maxWireSize → Byte

/-- What a `Send` was called with: the machine of the sender, the two headers and the data. -/
structure Letter where
  sender : NetworkAddress
  pktHdr : PacketHeader
  mailHdr : MailHeader
  data : Buffer

/-- A packet on its way. No step reads `letter`. -/
structure Packet where
  frame : Frame
  letter : Letter

/-- class `Mail` (post.h:62-71). `data` are the `mailHdr.length` bytes that the constructor
copies. -/
structure Mail where
  pktHdr : PacketHeader
  mailHdr : MailHeader
  data : List Byte
deriving DecidableEq, Repr

/-- `Mail::Mail` (post.cc:34-41); `none` is the failed assertion. -/
def Mail.new (pktH : PacketHeader) (mailH : MailHeader) (msgData : Buffer) : Option Mail :=
  if mailH.length.toNat ≤ maxMailSize then
    some ⟨pktH, mailH, (List.range mailH.length.toNat).map msgData⟩
  else none

/-- class `Network` (network.h:55-97). `scheduled` counts the `NetworkSendDone` interrupts to
come. -/
structure Network where
  ident : NetworkAddress
  sendBusy : Bool
  inHdr : PacketHeader
  inbox : Buffer
  scheduled : ℕ

namespace Network

/-- `Network::Send` (network.cc:103-127) up to the socket: the bytes on the wire. `garbage` is
what the new buffer held; `none` is the failed assertion. -/
def send (net : Network) (hdr : PacketHeader) (data garbage : Buffer) : Option (Network × Frame) :=
  if net.sendBusy = false ∧ 0 < hdr.length.toNat ∧ hdr.length.toNat ≤ maxPacketSize ∧
      hdr.from_ = net.ident then
    let buffer := bcopy data (bcopy hdr.bytes garbage 0 sizeofHeader) sizeofHeader hdr.length.toNat
    some ({ net with scheduled := net.scheduled + 1 }, fun k => buffer k)
  else none

/-- `Network::SendDone` (network.cc:90-96) up to the call of `writeHandler`. -/
def sendDone (net : Network) : Network :=
  { net with sendBusy := false, scheduled := net.scheduled - 1 }

/-- `Network::CheckPktAvail` (network.cc:60-87) with no packet buffered and `frame` in the
socket, up to the call of `readHandler`; `none` is the failed assertion. -/
def checkPktAvail (net : Network) (frame : Frame) : Option Network :=
  let buffer : Buffer := fun k => if h : k < maxWireSize then frame ⟨k, h⟩ else 0#8
  let inHdr := PacketHeader.ofBytes buffer
  if inHdr.to_ = net.ident ∧ inHdr.length.toNat ≤ maxPacketSize then
    some { net with
      inHdr := inHdr
      inbox := bcopy (fun k => buffer (sizeofHeader + k)) net.inbox 0 inHdr.length.toNat }
  else none

/-- `Network::Receive` (network.cc:130-139): the header, the device and `data` afterwards. -/
def receive (net : Network) (data : Buffer) : PacketHeader × Network × Buffer :=
  let hdr := net.inHdr
  let net' := { net with inHdr := { net.inHdr with length := 0#32 } }
  (hdr, net', if hdr.length ≠ 0#32 then bcopy net.inbox data 0 hdr.length.toNat else data)

end Network

/-- Where the postal worker stands: at the test of `messageAvailable->P()`, or behind it. -/
inductive WorkerPc where
  | messageAvailable
  | receive
deriving DecidableEq, Repr

/-- class `PostOffice` (post.h:102-139) with the thread in `PostalDelivery` and the threads inside
`Send` that wait for `messageSent`. `failed` says that an assertion has failed, which aborts the
kernel. `read` and `delivered`, the letters whose packets have come off the socket and the mail
put into each box, are read by no step. -/
structure PostOffice where
  network : Network
  netAddr : NetworkAddress
  boxes : ℤ → List Mail
  numBoxes : ℤ
  messageAvailable : Semaphore
  messageSent : Semaphore
  postalWorker : ThreadId
  workerPc : WorkerPc
  buffer : Buffer
  sending : ThreadId → Bool
  failed : Bool
  read : List Letter
  delivered : ℤ → List Mail

/-- The post offices and the sockets. -/
structure NetState where
  office : NetworkAddress → PostOffice
  socket : NetworkAddress → List Packet

/-- A thread at `a` calls `Send`, with `works` if the network does not lose the packet, or goes on
in its call; the device at `a` is done with a packet, or polls the socket; the postal worker at `a`
goes on; a thread at `a` takes mail out of a box; the socket of `a` loses the packet at `i`. -/
inductive NetEvent where
  | send (a : NetworkAddress) (t : ThreadId) (pktHdr : PacketHeader) (mailHdr : MailHeader)
      (data : Buffer) (works : Bool) (garbage garbage' : Buffer)
  | sent (a : NetworkAddress) (t : ThreadId)
  | sendDone (a : NetworkAddress)
  | checkPktAvail (a : NetworkAddress)
  | postalDelivery (a : NetworkAddress)
  | receive (a : NetworkAddress) (box : ℤ)
  | lose (a : NetworkAddress) (i : ℕ)

/-- The machine on which the event happens. -/
def NetEvent.machine : NetEvent → NetworkAddress
  | .send a _ _ _ _ _ _ _ | .sent a _ | .sendDone a | .checkPktAvail a | .postalDelivery a
  | .receive a _ | .lose a _ => a

namespace PostOffice

/-- `PostOffice::PostOffice` (post.cc:176-197) and `Network::Network` (network.cc:27-49).
`inHdr`, `inbox` and `buffer` are what their memory held. -/
def new (addr : NetworkAddress) (nBoxes : ℤ) (postalWorker : ThreadId) (inHdr : PacketHeader)
    (inbox buffer : Buffer) : PostOffice where
  network := ⟨addr, false, { inHdr with length := 0#32 }, inbox, 0⟩
  netAddr := addr
  boxes := fun _ => []
  numBoxes := nBoxes
  messageAvailable := Semaphore.new "message available" 0#32
  messageSent := Semaphore.new "message sent" 0#32
  postalWorker := postalWorker
  workerPc := .messageAvailable
  buffer := buffer
  sending := fun _ => false
  failed := false
  read := []
  delivered := fun _ => []

/-- A failed assertion. -/
def abort (po : PostOffice) : PostOffice := { po with failed := true }

/-- `PostOffice::Send` (post.cc:261-291) up to `messageSent->P()`: the frame for the socket.
`garbage` and `garbage'` are what the two new buffers held; `none` is a failed assertion. -/
def send (po : PostOffice) (pktHdr : PacketHeader) (mailHdr : MailHeader)
    (data garbage garbage' : Buffer) : Option (PostOffice × Frame) :=
  if mailHdr.length.toNat ≤ maxMailSize ∧ 0 ≤ mailHdr.to_.toInt ∧
      mailHdr.to_.toInt < po.numBoxes then
    let pktHdr' := { pktHdr with
      from_ := po.netAddr
      length := mailHdr.length + BitVec.ofNat 32 sizeofHeader }
    let buffer := bcopy data (bcopy mailHdr.bytes garbage 0 sizeofHeader) sizeofHeader
      mailHdr.length.toNat
    (po.network.send pktHdr' buffer garbage').map fun (network, frame) =>
      ({ po with network := network }, frame)
  else none

/-- `MailBox::Put` (post.cc:99-107) with `SynchList::Append`. -/
def put (po : PostOffice) (box : ℤ) (mail : Mail) : PostOffice :=
  { po with
    boxes := Function.update po.boxes box (po.boxes box ++ [mail])
    delivered := Function.update po.delivered box (po.delivered box ++ [mail]) }

/-- `PostOffice::PostalDelivery` (post.cc:221-246) from `Receive` to the next test of
`messageAvailable`; `none` is a failed assertion. -/
def deliver (po : PostOffice) : Option PostOffice :=
  let (pktHdr, network, buffer) := po.network.receive po.buffer
  let mailHdr := MailHeader.ofBytes buffer
  if 0 ≤ mailHdr.to_.toInt ∧ mailHdr.to_.toInt < po.numBoxes ∧
      mailHdr.length.toNat ≤ maxMailSize then
    (Mail.new pktHdr mailHdr fun k => buffer (sizeofHeader + k)).map fun mail =>
      { po with network := network, buffer := buffer, workerPc := .messageAvailable }.put
        mailHdr.to_.toInt mail
  else none

/-- The postal worker runs to its next program point. -/
def postalDelivery (po : PostOffice) : PostOffice :=
  match po.workerPc with
  | .messageAvailable =>
    match po.messageAvailable.p po.postalWorker with
    | (sem, true) => { po with messageAvailable := sem, workerPc := .receive }
    | (sem, false) => { po with messageAvailable := sem }
  | .receive => po.deliver.getD po.abort

/-- A thread inside `Send` tests `messageSent` (post.cc:285-290). -/
def sent (po : PostOffice) (t : ThreadId) : PostOffice :=
  match po.messageSent.p t with
  | (sem, true) => { po with messageSent := sem, sending := Function.update po.sending t false }
  | (sem, false) => { po with messageSent := sem }

/-- `PostOffice::Receive` (post.cc:308-316) with `SynchList::Remove`: an empty box leads to
`Condition::Wait`. -/
def receive (po : PostOffice) (box : ℤ) : PostOffice :=
  if 0 ≤ box ∧ box < po.numBoxes then
    match po.boxes box with
    | [] => po.abort
    | mail :: rest =>
      if mail.mailHdr.length.toNat ≤ maxMailSize then
        { po with boxes := Function.update po.boxes box rest }
      else po.abort
  else po.abort

/-- The poll takes `packet` off the socket; `IncomingPacket` is the read handler
(post.cc:325-329). -/
def incomingPacket (po : PostOffice) (packet : Packet) : PostOffice :=
  match po.network.checkPktAvail packet.frame with
  | none => { po with read := po.read ++ [packet.letter] }.abort
  | some network =>
    { po with
      network := network
      messageAvailable := po.messageAvailable.v.1
      read := po.read ++ [packet.letter] }

end PostOffice

namespace NetState

/-- Post offices that have just been made, and nothing in the sockets. -/
def init (nBoxes : NetworkAddress → ℤ) (postalWorker : NetworkAddress → ThreadId)
    (inHdr : NetworkAddress → PacketHeader) (inbox buffer : NetworkAddress → Buffer) :
    NetState where
  office := fun a => PostOffice.new a (nBoxes a) (postalWorker a) (inHdr a) (inbox a) (buffer a)
  socket := fun _ => []

/-- The post office at `a` changes. -/
def setOffice (s : NetState) (a : NetworkAddress) (po : PostOffice) : NetState :=
  { s with office := Function.update s.office a po }

/-- A `Send` at `a` by thread `t` (post.cc:261-291) up to the test of `messageSent`. -/
def send (s : NetState) (a : NetworkAddress) (t : ThreadId) (pktHdr : PacketHeader)
    (mailHdr : MailHeader) (data : Buffer) (works : Bool) (garbage garbage' : Buffer) : NetState :=
  match (s.office a).send pktHdr mailHdr data garbage garbage' with
  | none => s.setOffice a (s.office a).abort
  | some (po, frame) =>
    let s' := s.setOffice a { po with sending := Function.update po.sending t true }
    if works then
      { s' with
        socket := Function.update s.socket pktHdr.to_
          (s.socket pktHdr.to_ ++ [⟨frame, ⟨a, pktHdr, mailHdr, data⟩⟩]) }
    else s'

/-- A poll of the socket at `a` (network.cc:60-87). -/
def checkPktAvail (s : NetState) (a : NetworkAddress) : NetState :=
  if (s.office a).network.inHdr.length ≠ 0#32 then s
  else match s.socket a with
    | [] => s
    | packet :: rest =>
      { office := Function.update s.office a ((s.office a).incomingPacket packet)
        socket := Function.update s.socket a rest }

/-- One step. Nothing runs on a machine after a failed assertion, a thread inside `Send` makes no
other call, and a thread asleep does not run. -/
def step (s : NetState) (e : NetEvent) : Option NetState :=
  if (s.office e.machine).failed then none
  else match e with
    | .send a t pktHdr mailHdr data works garbage garbage' =>
      if (s.office a).sending t then none
      else some (s.send a t pktHdr mailHdr data works garbage garbage')
    | .sent a t =>
      if (s.office a).sending t ∧ (s.office a).messageSent.queue.contains t = false then
        some (s.setOffice a ((s.office a).sent t))
      else none
    | .sendDone a =>
      -- `PacketSent` is the write handler (post.cc:341-345)
      if (s.office a).network.scheduled = 0 then none
      else some (s.setOffice a { s.office a with
        network := (s.office a).network.sendDone
        messageSent := (s.office a).messageSent.v.1 })
    | .checkPktAvail a => some (s.checkPktAvail a)
    | .postalDelivery a =>
      if (s.office a).messageAvailable.queue.contains (s.office a).postalWorker then none
      else some (s.setOffice a (s.office a).postalDelivery)
    | .receive a box => some (s.setOffice a ((s.office a).receive box))
    | .lose a i => some { s with socket := Function.update s.socket a ((s.socket a).eraseIdx i) }

end NetState

end Nachos.Model
