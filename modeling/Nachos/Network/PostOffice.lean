import Mathlib.Logic.Function.Basic
import Nachos.Library.Transition
import Nachos.Network.Wire
import Nachos.Threads.Semaphore

/-!
# Post offices

`PostOffice` of `network/post.cc` over `Network` of `machine/network.cc`, on any number of machines
with a UNIX datagram socket each. The sockets are reliable and deliver in order; `Network::Send`
drops packets at will. `Lock::Acquire` and `Lock::Release` of `threads/synch.cc` are empty, so any
number of threads can be in `PostOffice::Send`; `sendBusy` is never set.

One action is a section of the code that no interrupt can come into: a call of `Send` up to its
`messageSent->P`, one pass through the loop of that `P`, the interrupts `SendDone` and
`CheckPktAvail`, a section of the postal worker's loop, and `MailBox::Get`. The mails sent to a
machine and not dropped are at all times the ones that have arrived, followed by the ones in
transit (`Flow.kept_eq`): in the worker's hand, in the one-packet buffer whose emptiness is
`inHdr.length == 0`, and in the socket.
-/

namespace Nachos.Post

open Transition WordBytes Function

/-- `Mail`. -/
structure Mail where
  pktHdr : PacketHeader
  mailHdr : MailHeader
  data : Bytes

/-- The mail as its receiver sees it. -/
def Mail.message (mail : Mail) : Message :=
  ⟨mail.pktHdr.from_, mail.mailHdr, bytes mail.data mail.mailHdr.length.toNat⟩

/-- Where the postal worker is in the loop of `PostalDelivery`. -/
inductive Worker where
  /-- About to test the value of `messageAvailable` in `P`. -/
  | await
  | asleep
  /-- Behind `P`, in front of `network->Receive`. -/
  | receive
  /-- Behind `network->Receive`. -/
  | deliver
  deriving DecidableEq, Repr

/-- Where a thread is in `PostOffice::Send`. -/
inductive Sender where
  | outside
  /-- About to test the value of `messageSent` in `P`. -/
  | await
  | asleep
  deriving DecidableEq, Repr

/-- The receiving side of a machine: the `Network` and the postal worker. -/
structure Incoming where
  /-- The datagrams in the socket. -/
  sock : List Bytes
  inHdr : PacketHeader
  inbox : Bytes
  messageAvailable : Semaphore Unit
  worker : Worker
  /-- The variables `pktHdr` and `buffer` of `PostalDelivery`. -/
  pktHdr : PacketHeader
  buffer : Bytes

/-- A machine: the receiving side, the sending side with its threads, and the boxes. -/
structure Office (T : Type*) where
  incoming : Incoming
  sendBusy : Bool
  /-- The scheduled `NetworkSendDone` interrupts. -/
  sends : Nat
  messageSent : Semaphore T
  sender : T → Sender
  boxes : MailBoxAddress → List Mail

/-- `Network::Network` and `PostOffice::PostOffice`; the rest of `inHdr`, `inbox` and the worker's
variables hold anything. -/
def Incoming.new (raw : Bytes) : Incoming where
  sock := []
  inHdr := { PacketHeader.load raw with length := 0 }
  inbox := raw
  messageAvailable := .new 0
  worker := .await
  pktHdr := .load raw
  buffer := raw

def Office.new (T : Type*) (raw : Bytes) : Office T where
  incoming := .new raw
  sendBusy := false
  sends := 0
  messageSent := .new 0
  sender := fun _ => .outside
  boxes := fun _ => []

/-- All machines, by their addresses. -/
abbrev State (T : Type*) := NetworkAddress → Office T

inductive Failure where
  | refused
  /-- The assertions of `PostOffice::Send`. -/
  | postSend
  /-- The assertion of `Network::Send`. -/
  | networkSend
  /-- The assertion of `SendToSocket`: there is no such machine. -/
  | sendToSocket
  /-- The assertion of `CheckPktAvail`. -/
  | checkPktAvail
  /-- The assertions of `PostalDelivery`. -/
  | postalDelivery
  /-- The assertion of `Mail::Mail`. -/
  | mail
  /-- The assertion of `PostOffice::Receive`. -/
  | postReceive
  /-- `Condition::Wait`, which only asserts. -/
  | conditionWait
  deriving DecidableEq, Repr

inductive Event where
  /-- `Network::Send`, which may drop the packet. -/
  | sent (source dest : NetworkAddress) (message : Message) (dropped : Bool)
  /-- `MailBox::Put`. -/
  | arrived (dest : NetworkAddress) (box : MailBoxAddress) (message : Message)
  deriving DecidableEq, Repr

/-- The arguments of `PostOffice::Send`, what the buffers that it and `Network::Send` allocate hold,
and what the random number generator says. -/
structure Parcel where
  pktHdr : PacketHeader
  mailHdr : MailHeader
  data : Bytes
  mailRaw : Bytes
  wireRaw : Bytes
  dropped : Bool

inductive Act (T : Type*) where
  | send (ident : NetworkAddress) (thread : T) (parcel : Parcel)
  /-- The thread goes on in `messageSent->P`. -/
  | goOn (ident : NetworkAddress) (thread : T)
  | sendDone (ident : NetworkAddress)
  | checkPktAvail (ident : NetworkAddress)
  /-- The postal worker goes on; `raw` is what a new `Mail` holds. -/
  | work (ident : NetworkAddress) (raw : Bytes)
  | get (ident : NetworkAddress) (box : MailBoxAddress)

/-! ## The receiving side -/

namespace Incoming

/-- A datagram arrives in the socket. -/
def push (i : Incoming) (datagram : Bytes) : Incoming := { i with sock := i.sock ++ [datagram] }

/-- `PostOffice::IncomingPacket`: `messageAvailable->V()`. -/
def incomingPacket (i : Incoming) : Incoming :=
  let (woken, sem) := i.messageAvailable.V
  { i with
    messageAvailable := sem
    worker := if woken.isSome then .await else i.worker }

/-- The packet is divided into header and data. -/
def divide (i : Incoming) (buffer : Bytes) (rest : List Bytes) : Incoming :=
  let inHdr := PacketHeader.load buffer
  { i with
    sock := rest
    inHdr := inHdr
    inbox := bcopy (behind headerSize buffer) i.inbox 0 inHdr.length.toNat }

/-- `Network::CheckPktAvail`. -/
def checkPktAvail (ident : NetworkAddress) (i : Incoming) : Except Failure Incoming :=
  if i.inHdr.length ≠ 0 then .ok i
  else match i.sock with
    | [] => .ok i
    | buffer :: rest =>
      let inHdr := PacketHeader.load buffer
      if inHdr.to_ = ident ∧ inHdr.length.toNat ≤ MaxPacketSize then
        .ok (i.divide buffer rest).incomingPacket
      else .error .checkPktAvail

/-- `Network::Receive`, into the variables of the worker. -/
def receive (i : Incoming) : Incoming :=
  { i with
    pktHdr := i.inHdr
    inHdr := { i.inHdr with length := 0 }
    buffer := if i.inHdr.length ≠ 0 then bcopy i.inbox i.buffer 0 i.inHdr.length.toNat
      else i.buffer
    worker := .deliver }

/-- The mail that `PostalDelivery` makes of its buffer; `raw` is what a new `Mail` holds. -/
def mail (i : Incoming) (raw : Bytes) : Mail :=
  let mailHdr := MailHeader.load i.buffer
  ⟨i.pktHdr, mailHdr, bcopy (behind headerSize i.buffer) raw 0 mailHdr.length.toNat⟩

/-- The next section of `PostOffice::PostalDelivery`, with the mail it puts into its box. -/
def work (numBoxes : Int) (i : Incoming) (raw : Bytes) :
    Except Failure (Option Mail × Incoming) :=
  match i.worker with
  | .await => match i.messageAvailable.P () with
      | (true, sem) => .ok (none, { i with messageAvailable := sem, worker := .receive })
      | (false, sem) => .ok (none, { i with messageAvailable := sem, worker := .asleep })
  | .asleep => .error .refused
  | .receive => .ok (none, i.receive)
  | .deliver =>
    let mail := i.mail raw
    if ¬ ValidBox numBoxes mail.mailHdr.to_ then .error .postalDelivery
    else if ¬ mail.mailHdr.length.toNat ≤ MaxMailSize then .error .postalDelivery
    -- once more in the constructor of `Mail`
    else if ¬ mail.mailHdr.length.toNat ≤ MaxMailSize then .error .mail
    else .ok (some mail, { i with worker := .await })

end Incoming

/-! ## The machines -/

variable {T : Type}

section Operations

variable [DecidableEq T]

namespace Office

/-- The end of `Network::Send`, and the thread on its way to `messageSent->P`. -/
def scheduled (o : Office T) (t : T) : Office T :=
  { o with
    sends := o.sends + 1
    sender := update o.sender t .await }

/-- One pass through the loop of `messageSent->P`. -/
def goOn (o : Office T) (t : T) : Except Failure (Office T) :=
  match o.sender t with
  | .await => match o.messageSent.P t with
      | (true, sem) => .ok { o with
          messageSent := sem
          sender := update o.sender t .outside }
      | (false, sem) => .ok { o with
          messageSent := sem
          sender := update o.sender t .asleep }
  | .outside | .asleep => .error .refused

/-- `Network::SendDone` with its handler, `PostOffice::PacketSent`. -/
def sendDone (o : Office T) : Except Failure (Office T) :=
  if o.sends = 0 then .error .refused
  else
    let (woken, sem) := o.messageSent.V
    .ok { o with
      sendBusy := false
      sends := o.sends - 1
      messageSent := sem
      sender := match woken with
        | none => o.sender
        | some t => update o.sender t .await }

/-- `MailBox::Put`. -/
def put (o : Office T) (mail : Mail) : Office T :=
  let box := mail.mailHdr.to_
  { o with boxes := update o.boxes box (o.boxes box ++ [mail]) }

/-- `PostOffice::Receive` with `MailBox::Get`. -/
def get (numBoxes : Int) (o : Office T) (box : MailBoxAddress) : Except Failure (Office T) :=
  if ¬ ValidBox numBoxes box then .error .postReceive
  else match o.boxes box with
    | [] => .error .conditionWait
    | _ :: rest => .ok { o with boxes := update o.boxes box rest }

end Office

/-- The packet header that `PostOffice::Send` fills in. -/
def Parcel.header (parcel : Parcel) (ident : NetworkAddress) : PacketHeader :=
  ⟨parcel.pktHdr.to_, ident, parcel.mailHdr.length + 12⟩

/-- The mail, as `PostOffice::Send` is asked to send it. -/
def Parcel.message (parcel : Parcel) (ident : NetworkAddress) : Message :=
  ⟨ident, parcel.mailHdr, bytes parcel.data parcel.mailHdr.length.toNat⟩

/-- The datagram that `Network::Send` writes. -/
def Parcel.datagram (parcel : Parcel) (ident : NetworkAddress) : Bytes :=
  wireBuffer parcel.wireRaw (parcel.header ident)
    (mailBuffer parcel.mailRaw parcel.mailHdr parcel.data)

/-- The datagram is in the socket of the machine. -/
def sendToSocket (s : State T) (dest : NetworkAddress) (datagram : Bytes) : State T :=
  update s dest { s dest with incoming := (s dest).incoming.push datagram }

/-- `PostOffice::Send` up to its `messageSent->P`, on machines of which `up` says whether they
run. -/
def send (up : NetworkAddress → Bool) (numBoxes : Int) (s : State T) (ident : NetworkAddress)
    (t : T) (parcel : Parcel) : Except Failure (List Event × State T) :=
  let hdr := parcel.header ident
  if (s ident).sender t ≠ .outside then .error .refused
  else if ¬ parcel.mailHdr.length.toNat ≤ MaxMailSize then .error .postSend
  else if ¬ ValidBox numBoxes parcel.mailHdr.to_ then .error .postSend
  else if ¬ ((s ident).sendBusy = false ∧ 0 < hdr.length.toNat ∧
    hdr.length.toNat ≤ MaxPacketSize ∧ hdr.from_ = ident) then .error .networkSend
  else
    let s' := update s ident ((s ident).scheduled t)
    let event := Event.sent ident hdr.to_ (parcel.message ident) parcel.dropped
    if parcel.dropped then .ok ([event], s')
    else if up hdr.to_ then .ok ([event], sendToSocket s' hdr.to_ (parcel.datagram ident))
    else .error .sendToSocket

/-- One machine goes on by itself. -/
def onMachine (up : NetworkAddress → Bool) (s : State T) (ident : NetworkAddress)
    (x : Except Failure (List Event × Office T)) : Except Failure (List Event × State T) :=
  if up ident then x.map fun r => (r.1, update s ident r.2) else .error .refused

/-- One action. -/
def perform (up : NetworkAddress → Bool) (numBoxes : Int) (s : State T) :
    Act T → Except Failure (List Event × State T)
  | .send ident t parcel =>
    if up ident then send up numBoxes s ident t parcel else .error .refused
  | .goOn ident t => onMachine up s ident (((s ident).goOn t).map fun o => ([], o))
  | .sendDone ident => onMachine up s ident ((s ident).sendDone.map fun o => ([], o))
  | .checkPktAvail ident => onMachine up s ident (((s ident).incoming.checkPktAvail ident).map
      fun i => ([], { s ident with incoming := i }))
  | .work ident raw => onMachine up s ident (((s ident).incoming.work numBoxes raw).map
      fun
      | (none, i) => ([], { s ident with incoming := i })
      | (some mail, i) => ([.arrived ident mail.mailHdr.to_ mail.message],
          { (s ident).put mail with incoming := i }))
  | .get ident box => onMachine up s ident (((s ident).get numBoxes box).map fun o => ([], o))

def step (up : NetworkAddress → Bool) (numBoxes : Int) : Step (State T) (Act T) Event :=
  fun s act => (perform up numBoxes s act).toOption

end Operations

/-! ## What is in transit -/

namespace Incoming

variable {numBoxes : Int} {ident : NetworkAddress} {i i' : Incoming} {d : Bytes} {rest : List Bytes}

/-- The mail in a datagram. -/
def datagramMessage (datagram : Bytes) : Message :=
  .read (.load datagram) (behind headerSize datagram)

/-- The mails that have been sent and are not in a box yet, oldest first: the one that the worker
holds, the one that is buffered and those in the socket. -/
def transit (i : Incoming) : List Message :=
  (if i.worker = .deliver then [.read i.pktHdr i.buffer] else []) ++
    ((if i.inHdr.length = 0 then [] else [.read i.inHdr i.inbox]) ++
      i.sock.map datagramMessage)

/-- The semaphore and the place of the worker agree with the buffer. -/
def Signalled (i : Incoming) : Prop :=
  match i.worker with
  | .await | .deliver => i.messageAvailable = ⟨if i.inHdr.length = 0 then 0 else 1, []⟩
  | .asleep => i.inHdr.length = 0 ∧ i.messageAvailable = ⟨0, [()]⟩
  | .receive => i.inHdr.length ≠ 0 ∧ i.messageAvailable = ⟨0, []⟩

/-- Whatever is in transit is legal, and the worker knows about it. -/
structure Sound (numBoxes : Int) (ident : NetworkAddress) (i : Incoming) : Prop where
  sock : ∀ d ∈ i.sock, Legal numBoxes ident (.load d) (behind headerSize d)
  inbox : i.inHdr.length ≠ 0 → Legal numBoxes ident i.inHdr i.inbox
  buffer : i.worker = .deliver → Legal numBoxes ident i.pktHdr i.buffer
  signalled : i.Signalled

theorem sound_new (raw : Bytes) : Sound numBoxes ident (.new raw) where
  sock d hd := by cases hd
  inbox h := absurd rfl h
  buffer h := by cases h
  signalled := rfl

theorem Sound.push (h : Sound numBoxes ident i)
    (hd : Legal numBoxes ident (.load d) (behind headerSize d)) :
    Sound numBoxes ident (i.push d) where
  sock d' hd' := by
    rcases List.mem_append.mp hd' with hmem | hmem
    · exact h.sock d' hmem
    · rw [List.mem_singleton.mp hmem]
      exact hd
  inbox := h.inbox
  buffer := h.buffer
  signalled := h.signalled

theorem transit_push (i : Incoming) (d : Bytes) :
    (i.push d).transit = i.transit ++ [datagramMessage d] := by
  simp only [transit, push, List.map_append, List.map_cons, List.map_nil, List.append_assoc]
  rfl

/-- A packet is taken out of the socket while the buffer is empty. -/
theorem Sound.divide (h : Sound numBoxes ident i) (hempty : i.inHdr.length = 0)
    (hsock : i.sock = d :: rest) :
    Sound numBoxes ident (i.divide d rest).incomingPacket ∧
      (i.divide d rest).incomingPacket.transit = i.transit := by
  have hlegal : Legal numBoxes ident (.load d) (behind headerSize d) :=
    h.sock d (hsock ▸ List.mem_cons_self)
  have hlength := hlegal.length_ne_zero
  have hcopy : Carries numBoxes ident (.load d)
      (bcopy (behind headerSize d) i.inbox 0 (PacketHeader.load d).length.toNat)
      (datagramMessage d) :=
    hlegal.carries.congr fun o ho => bcopy_zero_apply _ _ ho
  -- the worker has not been told about a packet
  have hworker : (i.divide d rest).incomingPacket.Signalled ∧
      ((i.divide d rest).incomingPacket.worker = .deliver ↔ i.worker = .deliver) := by
    have hsignal := h.signalled
    unfold Signalled at hsignal
    cases hw : i.worker <;> simp only [hw, hempty] at hsignal
    · simp [Signalled, incomingPacket, Incoming.divide, Semaphore.V, hw, hsignal]
      exact hlength
    · simp [Signalled, incomingPacket, Incoming.divide, Semaphore.V, hsignal]
      exact hlength
    · exact absurd rfl hsignal.1
    · simp [Signalled, incomingPacket, Incoming.divide, Semaphore.V, hw, hsignal]
      exact hlength
  refine ⟨⟨?_, fun _ => hcopy.legal, fun hd => h.buffer (hworker.2.mp hd), hworker.1⟩, ?_⟩
  · intro d' hd'
    exact h.sock d' (hsock ▸ List.mem_cons_of_mem _ hd')
  · have hafter : (i.divide d rest).incomingPacket.transit =
        (if i.worker = .deliver then [Message.read i.pktHdr i.buffer] else []) ++
          ((if (PacketHeader.load d).length = 0 then [] else [datagramMessage d]) ++
            rest.map datagramMessage) := by
      rw [← hcopy.read]
      simp only [← hworker.2]
      rfl
    rw [hafter, if_neg hlength, transit, hempty, if_pos rfl, hsock]
    rfl

/-- `CheckPktAvail` keeps everything in its order, and its assertion holds. -/
theorem checkPktAvail_spec (h : Sound numBoxes ident i) :
    ∃ i', i.checkPktAvail ident = .ok i' ∧ Sound numBoxes ident i' ∧ i'.transit = i.transit := by
  unfold checkPktAvail
  split
  · exact ⟨i, rfl, h, rfl⟩
  rename_i hempty
  rw [not_not] at hempty
  cases hsock : i.sock with
  | nil => exact ⟨i, rfl, h, rfl⟩
  | cons d rest =>
    have hlegal := h.sock d (hsock ▸ List.mem_cons_self)
    dsimp only
    rw [if_pos ⟨hlegal.to_, hlegal.length_le⟩]
    exact ⟨_, rfl, h.divide hempty hsock⟩

/-- The worker tests the semaphore. -/
theorem work_await (h : Sound numBoxes ident i) (hw : i.worker = .await) (raw : Bytes) :
    i.work numBoxes raw = .ok (none,
      if i.inHdr.length = 0 then { i with messageAvailable := ⟨0, [()]⟩, worker := .asleep }
      else { i with messageAvailable := ⟨0, []⟩, worker := .receive }) := by
  have hsignal := h.signalled
  simp only [Signalled, hw] at hsignal
  simp only [work, hw, hsignal, Semaphore.P]
  by_cases hempty : i.inHdr.length = 0
  · simp only [hempty, if_true]
    rfl
  · simp only [hempty, if_false]
    rfl

/-- The assertions of the worker hold, and the mail is the one in its hand. -/
theorem work_deliver (h : Sound numBoxes ident i) (hw : i.worker = .deliver) (raw : Bytes) :
    i.work numBoxes raw = .ok (some (i.mail raw), { i with worker := .await }) ∧
      (i.mail raw).message = .read i.pktHdr i.buffer := by
  have hlegal := h.buffer hw
  constructor
  · unfold work
    rw [hw]
    have hbox : ValidBox numBoxes (i.mail raw).mailHdr.to_ := hlegal.box
    have hsize : (i.mail raw).mailHdr.length.toNat ≤ MaxMailSize := hlegal.size
    dsimp only
    rw [if_neg (not_not.mpr hbox), if_neg (not_not.mpr hsize), if_neg (not_not.mpr hsize)]
  · have hdata : bytes (i.mail raw).data (i.mail raw).mailHdr.length.toNat =
        bytes (behind headerSize i.buffer) (MailHeader.load i.buffer).length.toNat :=
      bytes_congr fun o ho => bcopy_zero_apply _ _ ho
    rw [Mail.message, hdata]
    rfl

/-- Each section of the worker keeps everything in its order, up to the mail it puts into a box. -/
theorem work_spec (h : Sound numBoxes ident i) (raw : Bytes) (hw : i.worker ≠ .asleep) :
    ∃ mail i', i.work numBoxes raw = .ok (mail, i') ∧ Sound numBoxes ident i' ∧
      i.transit = mail.toList.map Mail.message ++ i'.transit := by
  cases hworker : i.worker with
  | asleep => exact absurd hworker hw
  | await =>
    refine ⟨none, _, work_await h hworker raw, ?_⟩
    by_cases hempty : i.inHdr.length = 0
    · rw [if_pos hempty]
      refine ⟨⟨h.sock, h.inbox, (fun hd => by cases hd), hempty, rfl⟩, ?_⟩
      simp only [transit, hworker]
      rfl
    · rw [if_neg hempty]
      refine ⟨⟨h.sock, h.inbox, (fun hd => by cases hd), hempty, rfl⟩, ?_⟩
      simp only [transit, hworker]
      rfl
  | receive =>
    have hsignal := h.signalled
    simp only [Signalled, hworker] at hsignal
    have hcopy : Carries numBoxes ident i.inHdr
        (bcopy i.inbox i.buffer 0 i.inHdr.length.toNat) (.read i.inHdr i.inbox) :=
      (h.inbox hsignal.1).carries.congr fun o ho => bcopy_zero_apply _ _ ho
    have hbuffer : i.receive.buffer = bcopy i.inbox i.buffer 0 i.inHdr.length.toNat :=
      if_pos hsignal.1
    have hrun : i.work numBoxes raw = .ok (none, i.receive) := by rw [work, hworker]
    refine ⟨none, i.receive, hrun, ⟨h.sock, fun hne => absurd rfl hne, ?_, ?_⟩, ?_⟩
    · intro _
      rw [hbuffer]
      exact hcopy.legal
    · exact hsignal.2
    · have hafter : i.receive.transit =
          [Message.read i.inHdr i.receive.buffer] ++ ([] ++ i.sock.map datagramMessage) := rfl
      rw [hafter, hbuffer, hcopy.read, transit, hworker, if_neg (by decide), if_neg hsignal.1]
      rfl
  | deliver =>
    obtain ⟨hrun, hmessage⟩ := work_deliver h hworker raw
    refine ⟨_, _, hrun, ⟨h.sock, h.inbox, (fun hd => by cases hd), ?_⟩, ?_⟩
    · have hsignal := h.signalled
      simpa only [Signalled, hworker] using hsignal
    · rw [transit, if_pos hworker, Option.toList_some, List.map_singleton, hmessage]
      rfl

/-- The steps it takes at most until nothing is in transit, not counting idle polls. -/
def remaining (i : Incoming) : Nat :=
  4 * i.sock.length + match i.worker with
    | .receive => 2
    | .deliver => 1 + if i.inHdr.length = 0 then 0 else 3
    | .await | .asleep => if i.inHdr.length = 0 then 0 else 3

/-- A poll that finds a packet, while the worker waits for one. -/
theorem remaining_divide (h : Sound numBoxes ident i) (hempty : i.inHdr.length = 0)
    (hw : i.worker = .await ∨ i.worker = .asleep) (hsock : i.sock = d :: rest) :
    i.checkPktAvail ident = .ok (i.divide d rest).incomingPacket ∧
      (i.divide d rest).incomingPacket.remaining < i.remaining := by
  have hlegal : Legal numBoxes ident (.load d) (behind headerSize d) :=
    h.sock d (hsock ▸ List.mem_cons_self)
  have hworker : (i.divide d rest).incomingPacket.worker = .await := by
    rcases hw with hw | hw
    · simp [incomingPacket, Incoming.divide, hw]
    · have hsignal := h.signalled
      simp only [Signalled, hw] at hsignal
      simp [incomingPacket, Incoming.divide, Semaphore.V, hsignal.2]
  have hafter : (i.divide d rest).incomingPacket.remaining =
      4 * rest.length + if (PacketHeader.load d).length = 0 then 0 else 3 := by
    rw [remaining, hworker]
    rfl
  have hbefore : i.remaining = 4 * (rest.length + 1) + 0 := by
    rcases hw with hw | hw <;> simp only [remaining, hw, hempty, hsock, List.length_cons, if_true]
  constructor
  · rw [checkPktAvail, if_neg (not_not.mpr hempty), hsock]
    exact if_pos ⟨hlegal.to_, hlegal.length_le⟩
  · rw [hafter, hbefore, if_neg hlegal.length_ne_zero]
    omega

/-- As long as mails are in transit, the poll or the worker brings one further. -/
theorem progress (h : Sound numBoxes ident i) (htransit : i.transit ≠ []) (raw : Bytes) :
    (∃ i', i.checkPktAvail ident = .ok i' ∧ i'.remaining < i.remaining) ∨
      ∃ mail i', i.work numBoxes raw = .ok (mail, i') ∧ i'.remaining < i.remaining := by
  have hsignal := h.signalled
  by_cases hwait : i.inHdr.length = 0 ∧ (i.worker = .await ∨ i.worker = .asleep)
  · obtain ⟨hempty, hw⟩ := hwait
    cases hsock : i.sock with
    | nil =>
      refine absurd ?_ htransit
      rcases hw with hw | hw <;> simp only [transit, hw, hempty, hsock] <;> rfl
    | cons d rest => exact .inl ⟨_, remaining_divide h hempty hw hsock⟩
  refine .inr ?_
  cases hw : i.worker with
  | asleep =>
    simp only [Signalled, hw] at hsignal
    exact absurd ⟨hsignal.1, .inr hw⟩ hwait
  | await =>
    have hfull : i.inHdr.length ≠ 0 := fun hempty => hwait ⟨hempty, .inl hw⟩
    refine ⟨none, _, work_await h hw raw, ?_⟩
    rw [if_neg hfull]
    simp only [remaining, hw]
    rw [if_neg hfull]
    omega
  | receive =>
    refine ⟨none, i.receive, by rw [work, hw], ?_⟩
    simp only [remaining, hw, receive]
    show 4 * i.sock.length + 1 < _
    omega
  | deliver =>
    refine ⟨_, _, (work_deliver h hw raw).1, ?_⟩
    simp only [remaining, hw]
    omega

end Incoming

/-! ## What an action does -/

/-- The mails from `source` to the box. -/
def wanted (source : NetworkAddress) (box : MailBoxAddress) (message : Message) : Bool :=
  message.source = source ∧ message.mailHdr.to_ = box

/-- The mails that `source` has sent to the box of `dest`, and whether they were dropped. -/
def sends (source dest : NetworkAddress) (box : MailBoxAddress) (trace : List Event) :
    List (Message × Bool) :=
  trace.filterMap fun
    | .sent a m message dropped =>
      if a = source ∧ m = dest ∧ message.mailHdr.to_ = box then some (message, dropped) else none
    | .arrived _ _ _ => none

/-- The mails that `source` has sent to the box of `dest`. -/
def sentTo (source dest : NetworkAddress) (box : MailBoxAddress) (trace : List Event) :
    List Message := (sends source dest box trace).map (·.1)

/-- Those that `Network::Send` has not dropped. -/
def keptTo (source dest : NetworkAddress) (box : MailBoxAddress) (trace : List Event) :
    List Message := ((sends source dest box trace).filter fun r => !r.2).map (·.1)

/-- The mails from `source` that have reached the box of `dest`. -/
def arrivedFrom (source dest : NetworkAddress) (box : MailBoxAddress) (trace : List Event) :
    List Message :=
  trace.filterMap fun
    | .arrived m b message =>
      if m = dest ∧ b = box ∧ message.source = source then some message else none
    | .sent _ _ _ _ => none

/-- The mails from `source` that are in the box. -/
def inBox (source : NetworkAddress) (o : Office T) (box : MailBoxAddress) : List Message :=
  ((o.boxes box).map Mail.message).filter (·.source = source)

variable {source dest : NetworkAddress} {box : MailBoxAddress} {s s' : State T}
  {events : List Event} {o o' : Office T} {ident : NetworkAddress} {act : Act T}
  {trace : List Event} {t : T} {x : Except Failure (List Event × Office T)} {ε α β : Type}
  {f : α → β} {i : Incoming} {e : Failure}

theorem keptTo_append (first second : List Event) :
    keptTo source dest box (first ++ second) =
      keptTo source dest box first ++ keptTo source dest box second := by
  simp only [keptTo, sends, List.filterMap_append, List.filter_append, List.map_append]

theorem arrivedFrom_append (first second : List Event) :
    arrivedFrom source dest box (first ++ second) =
      arrivedFrom source dest box first ++ arrivedFrom source dest box second := by
  simp only [arrivedFrom, List.filterMap_append]

/-- Dropping takes mails out and changes no order. -/
theorem keptTo_sublist (trace : List Event) :
    (keptTo source dest box trace).Sublist (sentTo source dest box trace) :=
  List.filter_sublist.map _

/-- The mails in transit to a machine and those in its boxes are the same. -/
def Same (o o' : Office T) : Prop :=
  o'.incoming.transit = o.incoming.transit ∧ o'.boxes = o.boxes

/-- What an action does to the mails in transit and in the boxes. -/
inductive Effect (act : Act T) (s s' : State T) : List Event → Prop where
  | quiet (h : ∀ m, Same (s m) (s' m)) : Effect act s s' []
  | dropped (source dest : NetworkAddress) (message : Message) (h : ∀ m, Same (s m) (s' m)) :
      Effect act s s' [.sent source dest message true]
  | kept (dest : NetworkAddress) (message : Message)
      (hdest : (s' dest).incoming.transit = (s dest).incoming.transit ++ [message])
      (hboxes : (s' dest).boxes = (s dest).boxes) (h : ∀ m, m ≠ dest → Same (s m) (s' m)) :
      Effect act s s' [.sent message.source dest message false]
  | arrived (dest : NetworkAddress) (mail : Mail)
      (hdest : (s dest).incoming.transit = mail.message :: (s' dest).incoming.transit)
      (hboxes : (s' dest).boxes = ((s dest).put mail).boxes)
      (h : ∀ m, m ≠ dest → Same (s m) (s' m)) :
      Effect act s s' [.arrived dest mail.mailHdr.to_ mail.message]
  | taken (dest : NetworkAddress) (box : MailBoxAddress) (mail : Mail) (rest : List Mail)
      (hact : act = .get dest box) (hbox : (s dest).boxes box = mail :: rest)
      (hboxes : (s' dest).boxes = update (s dest).boxes box rest)
      (htransit : ∀ m, (s' m).incoming.transit = (s m).incoming.transit)
      (h : ∀ m, m ≠ dest → Same (s m) (s' m)) : Effect act s s' []

/-- What is kept, what has arrived and what is in transit change together. -/
theorem Effect.flow (h : Effect act s s' events)
    (hold : keptTo source dest box trace = arrivedFrom source dest box trace ++
      (s dest).incoming.transit.filter (wanted source box)) :
    keptTo source dest box (trace ++ events) = arrivedFrom source dest box (trace ++ events) ++
      (s' dest).incoming.transit.filter (wanted source box) := by
  rw [keptTo_append, arrivedFrom_append, hold]
  cases h with
  | quiet h =>
    rw [(h dest).1]
    simp [keptTo, arrivedFrom, sends]
  | taken _ _ _ _ _ _ _ htransit _ =>
    rw [htransit dest]
    simp [keptTo, arrivedFrom, sends]
  | dropped a m message h =>
    rw [(h dest).1]
    by_cases hsend : a = source ∧ m = dest ∧ message.mailHdr.to_ = box <;>
      simp [keptTo, arrivedFrom, sends, hsend]
  | kept m message hdest _ h =>
    by_cases hm : m = dest
    · subst hm
      rw [hdest]
      by_cases hsend : message.source = source ∧ message.mailHdr.to_ = box <;>
        simp [keptTo, arrivedFrom, sends, wanted, hsend]
    · rw [(h dest (Ne.symm hm)).1]
      simp [keptTo, arrivedFrom, sends, hm]
  | arrived m mail hdest _ h =>
    by_cases hm : m = dest
    · subst hm
      have hto : mail.message.mailHdr.to_ = mail.mailHdr.to_ := rfl
      rw [hdest]
      by_cases hsource : mail.message.source = source <;>
        by_cases hbox : mail.mailHdr.to_ = box <;>
        simp [keptTo, arrivedFrom, sends, wanted, hto, hsource, hbox]
    · rw [(h dest (Ne.symm hm)).1]
      simp [keptTo, arrivedFrom, sends, hm]

/-- `Get` takes the oldest mail out of its box, and what arrives is put behind the mails there. -/
theorem Effect.boxes (h : Effect act s s' events) (source dest : NetworkAddress)
    (box : MailBoxAddress) :
    inBox source (s' dest) box = inBox source (s dest) box ++ arrivedFrom source dest box events ∨
      act = .get dest box ∧ events = [] ∧
        ∃ mail, (s dest).boxes box = mail :: (s' dest).boxes box := by
  have same : (s' dest).boxes = (s dest).boxes →
      inBox source (s' dest) box = inBox source (s dest) box ++ [] := by
    intro hboxes
    rw [List.append_nil, inBox, hboxes, inBox]
  cases h with
  | quiet h => exact .inl (same (h dest).2)
  | dropped a m message h => exact .inl (same (h dest).2)
  | kept m message _ hboxes h =>
    refine .inl (same ?_)
    by_cases hm : dest = m
    · rw [hm, hboxes]
    · exact (h dest hm).2
  | arrived m mail _ hboxes h =>
    refine .inl ?_
    by_cases hm : dest = m
    · subst hm
      rw [inBox, hboxes]
      by_cases hbox : mail.mailHdr.to_ = box
      · by_cases hsource : mail.message.source = source <;>
          simp [inBox, arrivedFrom, Office.put, hbox, hsource]
      · simp [inBox, arrivedFrom, Office.put, hbox, update_of_ne (Ne.symm hbox)]
    · rw [inBox, (h dest hm).2]
      simp [inBox, arrivedFrom, Ne.symm hm]
  | taken m b mail rest hact hbox hboxes _ h =>
    by_cases hm : dest = m
    · subst hm
      by_cases hb : box = b
      · subst hb
        exact .inr ⟨hact, rfl, mail, by rw [hbox, hboxes, update_self]⟩
      · refine .inl ?_
        rw [inBox, hboxes, update_of_ne hb]
        exact (List.append_nil _).symm
    · exact .inl (same (h dest hm).2)

/-- What is in a box stays the last of what has arrived in it. -/
theorem Effect.suffix (h : Effect act s s' events)
    (hold : inBox source (s dest) box <:+ arrivedFrom source dest box trace) :
    inBox source (s' dest) box <:+ arrivedFrom source dest box (trace ++ events) := by
  rcases h.boxes source dest box with hput | ⟨-, rfl, mail, hbox⟩
  · obtain ⟨taken, htaken⟩ := hold
    exact ⟨taken, by rw [hput, arrivedFrom_append, ← List.append_assoc, htaken]⟩
  · have htail : inBox source (s' dest) box <:+ inBox source (s dest) box := by
      rw [inBox, inBox, hbox]
      exact ((List.suffix_cons mail _).map _).filter _
    rw [List.append_nil]
    exact htail.trans hold

variable {up : NetworkAddress → Bool} {numBoxes : Int}

/-- `MailBox::Get` takes the oldest mail of the box. -/
theorem get_spec {box : MailBoxAddress} (h : o.get numBoxes box = .ok o') :
    o'.incoming = o.incoming ∧ ∃ mail rest, o.boxes box = mail :: rest ∧
      o'.boxes = update o.boxes box rest := by
  unfold Office.get at h
  split at h
  · cases h
  · split at h
    · cases h
    · rename_i mail rest hbox
      cases h
      exact ⟨rfl, mail, rest, hbox, rfl⟩

/-- An action of a machine by itself. -/
theorem onMachine_ok (h : onMachine up s ident x = .ok (events, s')) :
    ∃ o, x = .ok (events, o) ∧ s' = update s ident o := by
  unfold onMachine at h
  split at h
  · cases x with
    | error e => cases h
    | ok r =>
      cases h
      exact ⟨r.2, rfl, rfl⟩
  · cases h

/-- The receiving sides after one machine has gone on. -/
theorem incoming_update (s : State T) (ident m : NetworkAddress) (o : Office T) :
    (update s ident o m).incoming =
      if m = ident then o.incoming else (s m).incoming := by
  rw [update_apply]
  split <;> rfl

/-- The other machines are as before. -/
theorem same_of_ne (s : State T) (o : Office T) {m : NetworkAddress} (hm : m ≠ ident) :
    Same (s m) (update s ident o m) := by
  rw [update_of_ne hm]
  exact ⟨rfl, rfl⟩

/-- A machine that leaves its mails alone. -/
theorem same_update (h : Same (s ident) o) (m : NetworkAddress) :
    Same (s m) (update s ident o m) := by
  by_cases hm : m = ident
  · rwa [hm, update_self]
  · exact same_of_ne s o hm

/-- The receiving side of the machine that goes on has to stay sound. -/
theorem sound_update (hs : ∀ m, Incoming.Sound numBoxes m (s m).incoming)
    (ho : Incoming.Sound numBoxes ident o.incoming) (m : NetworkAddress) :
    Incoming.Sound numBoxes m (update s ident o m).incoming := by
  by_cases hm : m = ident
  · rwa [hm, update_self]
  · rw [update_of_ne hm]
    exact hs m

/-- An action of the receiving side of a machine. -/
theorem effect_incoming (mail : Option Mail) (ho : (s ident).incoming.transit =
      mail.toList.map Mail.message ++ o.incoming.transit)
    (hboxes : o.boxes = (mail.elim (s ident) (s ident).put).boxes) :
    Effect act s (update s ident o)
      (mail.toList.map fun mail => .arrived ident mail.mailHdr.to_ mail.message) := by
  cases mail with
  | none => exact .quiet (same_update ⟨ho.symm, hboxes⟩)
  | some mail =>
    refine .arrived ident mail ?_ ?_ fun m hm => same_of_ne s o hm
    · rw [update_self]
      exact ho
    · rw [update_self]
      exact hboxes

variable [DecidableEq T]

/-- A thread that goes on in `messageSent->P` leaves the receiving side and the boxes alone. -/
theorem goOn_incoming (h : o.goOn t = .ok o') :
    o'.incoming = o.incoming ∧ o'.boxes = o.boxes := by
  unfold Office.goOn at h
  split at h
  · split at h <;> cases h <;> exact ⟨rfl, rfl⟩
  · cases h
  · cases h

/-- So does the interrupt after a packet was sent. -/
theorem sendDone_incoming (h : o.sendDone = .ok o') :
    o'.incoming = o.incoming ∧ o'.boxes = o.boxes := by
  unfold Office.sendDone at h
  split at h
  · cases h
  · cases h
    exact ⟨rfl, rfl⟩

theorem map_ok {x : Except ε α} {b : β} (h : x.map f = .ok b) : ∃ a, x = .ok a ∧ f a = b := by
  cases x with
  | error e => cases h
  | ok a =>
    cases h
    exact ⟨a, rfl, rfl⟩

/-- `PostOffice::Send` fails, its packet is dropped, or the datagram is written. -/
theorem send_cases (up : NetworkAddress → Bool) (numBoxes : Int) (s : State T)
    (ident : NetworkAddress) (t : T) (parcel : Parcel) :
    (∃ e ∈ [Failure.refused, .postSend, .networkSend, .sendToSocket],
      send up numBoxes s ident t parcel = .error e) ∨
    parcel.mailHdr.length.toNat ≤ MaxMailSize ∧ ValidBox numBoxes parcel.mailHdr.to_ ∧
      (send up numBoxes s ident t parcel =
          .ok ([.sent ident parcel.pktHdr.to_ (parcel.message ident) true],
            update s ident ((s ident).scheduled t)) ∨
        send up numBoxes s ident t parcel =
          .ok ([.sent ident parcel.pktHdr.to_ (parcel.message ident) false],
            sendToSocket (update s ident ((s ident).scheduled t)) parcel.pktHdr.to_
              (parcel.datagram ident))) := by
  unfold send
  dsimp only
  split
  · exact .inl ⟨_, by decide, rfl⟩
  split
  · exact .inl ⟨_, by decide, rfl⟩
  rename_i hsize
  split
  · exact .inl ⟨_, by decide, rfl⟩
  rename_i hbox
  split
  · exact .inl ⟨_, by decide, rfl⟩
  split
  · rename_i hdropped
    rw [hdropped]
    exact .inr ⟨not_not.mp hsize, not_not.mp hbox, .inl rfl⟩
  rename_i hdropped
  split
  · rw [Bool.eq_false_iff.mpr hdropped]
    exact .inr ⟨not_not.mp hsize, not_not.mp hbox, .inr rfl⟩
  · exact .inl ⟨_, by decide, rfl⟩

/-- `PostOffice::Send` puts one mail into transit, or none. -/
theorem effect_send {parcel : Parcel} (hs : ∀ m, Incoming.Sound numBoxes m (s m).incoming)
    (h : send up numBoxes s ident t parcel = .ok (events, s')) :
    Effect act s s' events ∧ ∀ m, Incoming.Sound numBoxes m (s' m).incoming := by
  have hsame : ∀ m, Same (s m) (update s ident ((s ident).scheduled t) m) :=
    same_update ⟨rfl, rfl⟩
  have hsound := sound_update (o := (s ident).scheduled t) hs (hs ident)
  rcases send_cases up numBoxes s ident t parcel with
    ⟨e, -, herror⟩ | ⟨hsize, hbox, hdropped | hsent⟩
  · rw [h] at herror
    cases herror
  · rw [h] at hdropped
    cases hdropped
    exact ⟨.dropped _ _ _ hsame, hsound⟩
  · rw [h] at hsent
    cases hsent
    have hcarries := (carries_mailBuffer parcel.mailRaw parcel.data hsize hbox ident :
      Carries numBoxes parcel.pktHdr.to_ _ _ _).wireBuffer parcel.wireRaw
    refine ⟨.kept parcel.pktHdr.to_ (parcel.message ident) ?_ ?_ ?_, ?_⟩
    · rw [sendToSocket, update_self, Incoming.transit_push, (hsame _).1]
      exact congrArg (_ ++ [·]) hcarries.read
    · rw [sendToSocket, update_self]
      exact (hsame _).2
    · intro m hm
      rw [sendToSocket, update_of_ne hm]
      exact hsame m
    · exact sound_update hsound ((hsound _).push hcarries.legal)

/-- Every action does one of five things to the mails. -/
theorem perform_effect (hs : ∀ m, Incoming.Sound numBoxes m (s m).incoming)
    (h : perform up numBoxes s act = .ok (events, s')) :
    Effect act s s' events ∧ ∀ m, Incoming.Sound numBoxes m (s' m).incoming := by
  cases act with
  | send ident t parcel =>
    simp only [perform] at h
    split at h
    · exact effect_send hs h
    · cases h
  | goOn ident t =>
    obtain ⟨o, hmap, rfl⟩ := onMachine_ok h
    obtain ⟨o', ho', heq⟩ := map_ok hmap
    cases heq
    obtain ⟨hin, hboxes⟩ := goOn_incoming ho'
    exact ⟨effect_incoming none (by rw [hin]; rfl) hboxes, sound_update hs (hin ▸ hs ident)⟩
  | sendDone ident =>
    obtain ⟨o, hmap, rfl⟩ := onMachine_ok h
    obtain ⟨o', ho', heq⟩ := map_ok hmap
    cases heq
    obtain ⟨hin, hboxes⟩ := sendDone_incoming ho'
    exact ⟨effect_incoming none (by rw [hin]; rfl) hboxes, sound_update hs (hin ▸ hs ident)⟩
  | get ident box =>
    obtain ⟨o, hmap, rfl⟩ := onMachine_ok h
    obtain ⟨o', ho', heq⟩ := map_ok hmap
    cases heq
    obtain ⟨hin, mail, rest, hbox, hboxes⟩ := get_spec ho'
    refine ⟨.taken ident box mail rest rfl hbox ?_ (fun m => ?_) fun m hm => same_of_ne s _ hm,
      sound_update hs (hin ▸ hs ident)⟩
    · rw [update_self, hboxes]
    · rw [incoming_update]
      split
      · rename_i hm
        rw [hin, hm]
      · rfl
  | checkPktAvail ident =>
    obtain ⟨o, hmap, rfl⟩ := onMachine_ok h
    obtain ⟨i, hi, heq⟩ := map_ok hmap
    cases heq
    obtain ⟨i', hi', hsound, htransit⟩ := Incoming.checkPktAvail_spec (hs ident)
    rw [hi] at hi'
    cases hi'
    exact ⟨effect_incoming none htransit.symm rfl, sound_update hs hsound⟩
  | work ident raw =>
    obtain ⟨o, hmap, rfl⟩ := onMachine_ok h
    obtain ⟨⟨mail, i⟩, hi, heq⟩ := map_ok hmap
    have hawake : (s ident).incoming.worker ≠ .asleep := by
      intro hw
      rw [Incoming.work, hw] at hi
      cases hi
    obtain ⟨mail', i', hi', hsound, htransit⟩ := Incoming.work_spec (hs ident) raw hawake
    rw [hi] at hi'
    cases hi'
    cases mail with
    | none =>
      cases heq
      exact ⟨effect_incoming none htransit rfl, sound_update hs hsound⟩
    | some mail =>
      cases heq
      exact ⟨effect_incoming (some mail) htransit rfl, sound_update hs hsound⟩

/-! ## Runs -/

/-- Only the polls and the postal worker of the machine go on. -/
def Delivering (dest : NetworkAddress) (_ : State T) (act : Act T) : Prop :=
  act = .checkPktAvail dest ∨ ∃ raw, act = .work dest raw

/-- They send nothing. -/
theorem keptTo_delivering (hact : Delivering dest s act)
    (h : perform up numBoxes s act = .ok (events, s')) (source dest : NetworkAddress)
    (box : MailBoxAddress) : keptTo source dest box events = [] := by
  obtain rfl | ⟨raw, rfl⟩ := hact
  · obtain ⟨o, hmap, -⟩ := onMachine_ok h
    obtain ⟨i, -, heq⟩ := map_ok hmap
    cases heq
    rfl
  · obtain ⟨o, hmap, -⟩ := onMachine_ok h
    obtain ⟨⟨mail, i⟩, -, heq⟩ := map_ok hmap
    cases mail <;> cases heq <;> rfl

/-- Everything in transit is legal, what has been kept is what has arrived and what is in transit,
and what has arrived is in its box unless it was taken out. -/
structure Flow (numBoxes : Int) (trace : List Event) (s : State T) : Prop where
  sound : ∀ m, Incoming.Sound numBoxes m (s m).incoming
  kept_eq : ∀ source dest box, keptTo source dest box trace =
    arrivedFrom source dest box trace ++ (s dest).incoming.transit.filter (wanted source box)
  boxes : ∀ source dest box, inBox source (s dest) box <:+ arrivedFrom source dest box trace

/-- The invariant holds along every run. -/
theorem run_flow {raw : NetworkAddress → Bytes}
    (hrun : Run (step up numBoxes) anyAct (fun m => Office.new T (raw m)) trace s) :
    Flow numBoxes trace s := by
  refine hrun.traceInvariant
    ⟨fun m => Incoming.sound_new (raw m), fun source dest box => rfl,
      fun source dest box => List.nil_suffix⟩ ?_
  intro tr s act events s' hinv _ hstep
  obtain ⟨heffect, hsound⟩ := perform_effect hinv.sound (ok_of_toOption hstep)
  exact ⟨hsound, fun source dest box => heffect.flow (hinv.kept_eq source dest box),
    fun source dest box => heffect.suffix (hinv.boxes source dest box)⟩

theorem perform_checkPktAvail (hup : up dest = true)
    (hi : (s dest).incoming.checkPktAvail dest = .ok i) :
    perform up numBoxes s (.checkPktAvail dest) =
      .ok ([], update s dest { s dest with incoming := i }) := by
  rw [perform, onMachine, if_pos hup, hi]
  rfl

theorem perform_work (hup : up dest = true) {raw : Bytes} {mail : Option Mail}
    (hi : (s dest).incoming.work numBoxes raw = .ok (mail, i)) :
    ∃ events o, perform up numBoxes s (.work dest raw) =
      .ok (events, update s dest o) ∧ o.incoming = i := by
  rw [perform, onMachine, if_pos hup, hi]
  cases mail with
  | none => exact ⟨_, _, rfl, rfl⟩
  | some mail => exact ⟨_, _, rfl, rfl⟩

/-- The polls and the worker of a machine can bring everything in transit to it into its box. -/
theorem drain (hup : up dest = true) (n : Nat)
    (hs : ∀ m, Incoming.Sound numBoxes m (s m).incoming) (hn : (s dest).incoming.remaining ≤ n) :
    ∃ later s', Run (step up numBoxes) (Delivering dest) s later s' ∧
      (s' dest).incoming.transit = [] := by
  induction n generalizing s with
  | zero =>
    refine ⟨[], s, .refl, ?_⟩
    by_contra htransit
    rcases Incoming.progress (hs dest) htransit (fun _ => 0) with ⟨i', -, hlt⟩ | ⟨_, i', -, hlt⟩
    · omega
    · omega
  | succ n ih =>
    by_cases htransit : (s dest).incoming.transit = []
    · exact ⟨[], s, .refl, htransit⟩
    -- one action, and what remains by induction
    have hstep : ∃ act events s', Delivering dest s act ∧
        perform up numBoxes s act = .ok (events, s') ∧
        (s' dest).incoming.remaining < (s dest).incoming.remaining := by
      rcases Incoming.progress (hs dest) htransit (fun _ => 0) with
        ⟨i', hi', hlt⟩ | ⟨mail, i', hi', hlt⟩
      · refine ⟨.checkPktAvail dest, _, _, .inl rfl, perform_checkPktAvail hup hi', ?_⟩
        rw [incoming_update, if_pos rfl]
        exact hlt
      · obtain ⟨events, o, hperform, ho⟩ := perform_work hup hi'
        refine ⟨_, events, _, .inr ⟨_, rfl⟩, hperform, ?_⟩
        rw [incoming_update, if_pos rfl, ho]
        exact hlt
    obtain ⟨act, events, s₁, hact, hperform, hlt⟩ := hstep
    obtain ⟨later, s', hrun, hdone⟩ :=
      ih (perform_effect hs hperform).2 (by omega)
    have hone : Run (step up numBoxes) (Delivering dest) s ([] ++ events) s₁ :=
      .snoc .refl hact (by rw [step, hperform]; rfl)
    exact ⟨_, s', hone.append hrun, hdone⟩

/-- Runs of the polls and the worker send nothing. -/
theorem keptTo_run {later : List Event} (h : Run (step up numBoxes) (Delivering dest) s later s')
    (source m : NetworkAddress) (box : MailBoxAddress) : keptTo source m box later = [] := by
  induction h with
  | refl => rfl
  | snoc _ hact hstep ih =>
    rw [keptTo_append, ih, keptTo_delivering hact (ok_of_toOption hstep)]
    rfl

/-! ## Assertions -/

theorem map_error {x : Except ε α} {e : ε} (h : x.map f = .error e) : x = .error e := by
  cases x with
  | error e' =>
    cases h
    rfl
  | ok a => cases h

omit [DecidableEq T] in
theorem onMachine_error (h : onMachine up s ident x = .error e) : e = .refused ∨ x = .error e := by
  unfold onMachine at h
  split at h
  · exact .inr (map_error h)
  · cases h
    exact .inl rfl

/-- The assertions of the sending side and of `PostOffice::Receive`. -/
def Failure.outgoing : List Failure :=
  [.refused, .postSend, .networkSend, .sendToSocket, .postReceive, .conditionWait]

/-- No other assertion fails. -/
theorem perform_error (hs : ∀ m, Incoming.Sound numBoxes m (s m).incoming)
    (h : perform up numBoxes s act = .error e) : e ∈ Failure.outgoing := by
  have hrefused : Failure.refused ∈ Failure.outgoing := by decide
  cases act with
  | send ident t parcel =>
    simp only [perform] at h
    split at h
    · rcases send_cases up numBoxes s ident t parcel with
        ⟨e', he', herror⟩ | ⟨-, -, hdropped | hsent⟩
      · rw [h] at herror
        cases herror
        exact (List.sublist_append_left _ [.postReceive, .conditionWait]).subset he'
      · rw [h] at hdropped
        cases hdropped
      · rw [h] at hsent
        cases hsent
    · cases h
      exact hrefused
  | goOn ident t =>
    obtain rfl | hx := onMachine_error h
    · exact hrefused
    have herror := map_error hx
    unfold Office.goOn at herror
    split at herror
    · split at herror <;> cases herror
    · cases herror
      exact hrefused
    · cases herror
      exact hrefused
  | sendDone ident =>
    obtain rfl | hx := onMachine_error h
    · exact hrefused
    have herror := map_error hx
    unfold Office.sendDone at herror
    split at herror
    · cases herror
      exact hrefused
    · cases herror
  | get ident box =>
    obtain rfl | hx := onMachine_error h
    · exact hrefused
    have herror := map_error hx
    unfold Office.get at herror
    split at herror
    · cases herror
      decide
    · split at herror
      · cases herror
        decide
      · cases herror
  | checkPktAvail ident =>
    obtain rfl | hx := onMachine_error h
    · exact hrefused
    obtain ⟨i, hi, -⟩ := Incoming.checkPktAvail_spec (hs ident)
    rw [hi] at hx
    cases hx
  | work ident raw =>
    obtain rfl | hx := onMachine_error h
    · exact hrefused
    by_cases hw : (s ident).incoming.worker = .asleep
    · rw [Incoming.work, hw] at hx
      cases hx
      exact hrefused
    · obtain ⟨mail, i, hi, -⟩ := Incoming.work_spec (hs ident) raw hw
      rw [hi] at hx
      cases hx

/-- Mails reach a box from a machine in the order in which that machine sent them to it, each at
most once and as it was sent. Only mails that `Network::Send` dropped are lost: the others have
arrived or are in transit, and the polls and the postal worker of the machine can bring them into
the box. What has arrived is in the box, behind what arrived before it, until `Get` takes it out,
oldest first. The assertions of `CheckPktAvail` and `PostalDelivery` hold. -/
theorem mail_in_order (up : NetworkAddress → Bool) (numBoxes : Int)
    (raw : NetworkAddress → Bytes) {trace : List Event} {s : State T}
    (hrun : Run (step up numBoxes) anyAct (fun m => Office.new T (raw m)) trace s) :
    (∀ source dest box,
      (arrivedFrom source dest box trace).Sublist (sentTo source dest box trace) ∧
      keptTo source dest box trace = arrivedFrom source dest box trace ++
        (s dest).incoming.transit.filter (wanted source box) ∧
      inBox source (s dest) box <:+ arrivedFrom source dest box trace ∧
      ∀ (act : Act T) events s', perform up numBoxes s act = .ok (events, s') →
        inBox source (s' dest) box =
            inBox source (s dest) box ++ arrivedFrom source dest box events ∨
          act = .get dest box ∧ events = [] ∧
            ∃ mail, (s dest).boxes box = mail :: (s' dest).boxes box) ∧
    (∀ dest, up dest = true → ∃ later s',
      Run (step up numBoxes) (Delivering dest) s later s' ∧
      ∀ source box,
        arrivedFrom source dest box (trace ++ later) = keptTo source dest box trace) ∧
    ∀ act : Act T,
      perform up numBoxes s act ≠ .error .checkPktAvail ∧
      perform up numBoxes s act ≠ .error .postalDelivery ∧
      perform up numBoxes s act ≠ .error .mail := by
  have hflow := run_flow hrun
  have hassert : ∀ (act : Act T) e, e ∉ Failure.outgoing →
      perform up numBoxes s act ≠ .error e :=
    fun act e he herror => he (perform_error hflow.sound herror)
  refine ⟨fun source dest box => ⟨?_, hflow.kept_eq source dest box, hflow.boxes source dest box,
      fun act events s' h => (perform_effect hflow.sound h).1.boxes source dest box⟩, ?_, fun act =>
    ⟨hassert act _ (by decide), hassert act _ (by decide), hassert act _ (by decide)⟩⟩
  · refine List.Sublist.trans ?_ (keptTo_sublist trace)
    rw [hflow.kept_eq source dest box]
    exact List.sublist_append_left _ _
  · intro dest hup
    obtain ⟨later, s', hlater, hempty⟩ := drain hup _ hflow.sound le_rfl
    refine ⟨later, s', hlater, fun source box => ?_⟩
    have hall := run_flow (hrun.append (hlater.mono fun _ _ _ => trivial))
    have hkept := hall.kept_eq source dest box
    rw [hempty, keptTo_append, keptTo_run hlater, List.append_nil, List.filter_nil,
      List.append_nil] at hkept
    exact hkept.symm

/-- A mail of two bytes from machine 0 to box 3 of machine 1. -/
def postcard (first : BitVec 8) (dropped : Bool) : Parcel where
  pktHdr := ⟨1, 0, 0⟩
  mailHdr := ⟨3, 2, 2⟩
  data := fun o => if o = 0 then first else 0x21
  mailRaw := fun _ => 0xee
  wireRaw := fun _ => 0xee
  dropped := dropped

/-- The receiver sees the address of the sender, the mail header and the two bytes. -/
def postcardMessage (first : BitVec 8) : Message := ⟨0, ⟨3, 2, 2⟩, [first, 0x21]⟩

/-- Three mails are sent, the second one is dropped and the first one delivered. -/
def postcards : List (Act Bool) :=
  [.work 1 fun _ => 0, .send 0 true (postcard 0x61 false), .send 0 false (postcard 0x62 true),
    .checkPktAvail 1, .sendDone 0, .goOn 0 true, .send 0 true (postcard 0x63 false),
    .checkPktAvail 1, .work 1 fun _ => 0, .work 1 fun _ => 0, .checkPktAvail 1,
    .work 1 fun _ => 0]

/-- Machines 0 and 1 run. -/
def twoMachines (m : NetworkAddress) : Bool := m.toNat < 2

def postcardTrace : List Event :=
  [.sent 0 1 (postcardMessage 0x61) false, .sent 0 1 (postcardMessage 0x62) true,
    .sent 0 1 (postcardMessage 0x63) false, .arrived 1 3 (postcardMessage 0x61)]

theorem execute_postcards :
    ((execute (step twoMachines 10) (fun _ => Office.new Bool fun _ => 0) postcards).map
      fun r => (r.1, ())) = some (postcardTrace, ()) := by
  decide +kernel

/-- The third mail follows the first one. -/
theorem mail_in_order_three :
    ∃ s, execute (step twoMachines 10) (fun _ => Office.new Bool fun _ => 0) postcards =
        some (postcardTrace, s) ∧
      (arrivedFrom 0 1 3 postcardTrace).Sublist (sentTo 0 1 3 postcardTrace) ∧
      ∃ later s', Run (step twoMachines 10) (Delivering 1) s later s' ∧
        arrivedFrom 0 1 3 (postcardTrace ++ later) =
          [postcardMessage 0x61, postcardMessage 0x63] := by
  obtain ⟨s, hexec, -⟩ := execute_observed (fun _ => ()) execute_postcards
  have hrun := run_of_execute hexec (allowed_anyAct _ _)
  obtain ⟨horder, hlater, -⟩ := mail_in_order twoMachines 10 (fun _ _ => 0) hrun
  obtain ⟨later, s', hrun', harrived⟩ := hlater 1 rfl
  exact ⟨s, hexec, (horder 0 1 3).1, later, s', hrun', harrived 0 3⟩

end Nachos.Post
