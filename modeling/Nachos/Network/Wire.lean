import Nachos.Library.WordBytes

/-!
# Packets

The headers of `machine/network.h` and `network/post.h` and the buffers they travel in. A mail is
laid out twice: `PostOffice::Send` puts the `MailHeader` in front of the data, and `Network::Send`
puts the `PacketHeader` in front of that. On the other side `CheckPktAvail`, `Receive`,
`PostalDelivery` and `Mail::Mail` each copy as many bytes as a header says. `Carries` says that a
packet header and the bytes behind it are legal and what mail they hold; it depends on those bytes
only (`Carries.congr`), so it survives every copy.
-/

namespace Nachos.Post

open WordBytes

/-- `NetworkAddress`, an `int`. -/
abbrev NetworkAddress := BitVec 32

/-- `MailBoxAddress`, an `int`. -/
abbrev MailBoxAddress := BitVec 32

/-- `PacketHeader`; `to` and `from` are words of Lean. -/
structure PacketHeader where
  to_ : NetworkAddress
  from_ : NetworkAddress
  length : BitVec 32
  deriving DecidableEq, Repr

/-- `MailHeader`. -/
structure MailHeader where
  to_ : MailBoxAddress
  from_ : MailBoxAddress
  length : BitVec 32
  deriving DecidableEq, Repr

/-- `sizeof(PacketHeader)` and `sizeof(MailHeader)`: three words. -/
def headerSize : Nat := 12

/-- `MaxWireSize` of `network.h`. -/
def MaxWireSize : Nat := 64

/-- `MaxPacketSize` of `network.h`. -/
def MaxPacketSize : Nat := MaxWireSize - headerSize

/-- `MaxMailSize` of `post.h`. -/
def MaxMailSize : Nat := MaxPacketSize - headerSize

/-! ## Copying -/

/-- `bcopy(src, dst + offset, length)`. -/
def bcopy (src dst : Bytes) (offset length : Nat) : Bytes :=
  fun o => if offset ≤ o ∧ o < offset + length then src (o - offset) else dst o

/-- The address `b + n`. -/
def behind (n : Nat) (b : Bytes) : Bytes := fun o => b (n + o)

/-- The first `n` bytes. -/
def bytes (b : Bytes) (n : Nat) : List (BitVec 8) := (List.range n).map b

variable {length o : Nat} {b : Bytes} {offset : Nat} {b' : Bytes}

theorem bcopy_apply (src dst : Bytes) (h : o < length) :
    bcopy src dst offset length (offset + o) = src o := by
  rw [bcopy, if_pos (by omega), Nat.add_sub_cancel_left]

theorem bcopy_zero_apply (src dst : Bytes) (h : o < length) : bcopy src dst 0 length o = src o := by
  rw [bcopy, if_pos (by omega), Nat.sub_zero]

theorem bcopy_of_lt (src dst : Bytes) (h : o < offset) : bcopy src dst offset length o = dst o := by
  rw [bcopy, if_neg (by omega)]

theorem bytes_congr {n : Nat} (h : ∀ o < n, b' o = b o) : bytes b' n = bytes b n :=
  List.map_congr_left fun o ho => h o (List.mem_range.mp ho)

/-! ## Headers in memory -/

/-- The words of a header, in the order of its fields. -/
def headerWords (first second third : BitVec 32) : Nat → BitVec 32
  | 0 => first
  | 1 => second
  | _ => third

/-- The assignment `*(PacketHeader *)buffer = hdr`. -/
def PacketHeader.store (hdr : PacketHeader) (buffer : Bytes) : Bytes :=
  bcopy (pack (headerWords hdr.to_ hdr.from_ hdr.length)) buffer 0 headerSize

/-- The value `*(PacketHeader *)buffer`. -/
def PacketHeader.load (buffer : Bytes) : PacketHeader :=
  ⟨unpack buffer 0, unpack buffer 1, unpack buffer 2⟩

/-- The bytes of a `MailHeader`, put in front. -/
def MailHeader.store (hdr : MailHeader) (buffer : Bytes) : Bytes :=
  bcopy (pack (headerWords hdr.to_ hdr.from_ hdr.length)) buffer 0 headerSize

/-- The value `*(MailHeader *)buffer`. -/
def MailHeader.load (buffer : Bytes) : MailHeader :=
  ⟨unpack buffer 0, unpack buffer 1, unpack buffer 2⟩

/-- A word of a header is read back from a buffer that holds the bytes of the header. -/
theorem unpack_header {words : Nat → BitVec 32} {k : Nat} (hk : k < 3)
    (h : ∀ o < headerSize, b o = pack words o) : unpack b k = words k :=
  unpack_eq fun j hj => h (4 * k + j) (by simp only [headerSize]; omega)

theorem PacketHeader.load_eq {hdr : PacketHeader}
    (h : ∀ o < headerSize, b o = pack (headerWords hdr.to_ hdr.from_ hdr.length) o) :
    PacketHeader.load b = hdr := by
  rw [PacketHeader.load, unpack_header (by omega) h, unpack_header (by omega) h,
    unpack_header (by omega) h]
  rfl

theorem MailHeader.load_eq {hdr : MailHeader}
    (h : ∀ o < headerSize, b o = pack (headerWords hdr.to_ hdr.from_ hdr.length) o) :
    MailHeader.load b = hdr := by
  rw [MailHeader.load, unpack_header (by omega) h, unpack_header (by omega) h,
    unpack_header (by omega) h]
  rfl

theorem MailHeader.load_congr (h : ∀ o < headerSize, b' o = b o) :
    MailHeader.load b' = MailHeader.load b := by
  have hword : ∀ k < 3, unpack b' k = unpack b k := by
    intro k hk
    refine wordOf_congr fun j hj => h (4 * k + j) ?_
    simp only [headerSize]
    omega
  rw [MailHeader.load, MailHeader.load, hword 0 (by omega), hword 1 (by omega),
    hword 2 (by omega)]

/-! ## The buffers of a mail -/

/-- The buffer of `PostOffice::Send`; `raw` is what the fresh memory holds. -/
def mailBuffer (raw : Bytes) (mailHdr : MailHeader) (data : Bytes) : Bytes :=
  bcopy data (mailHdr.store raw) headerSize mailHdr.length.toNat

/-- The buffer of `Network::Send`. -/
def wireBuffer (raw : Bytes) (hdr : PacketHeader) (data : Bytes) : Bytes :=
  bcopy data (hdr.store raw) headerSize hdr.length.toNat

/-- A mail as its receiver sees it: the sender's address, the mail header and the data. -/
structure Message where
  source : NetworkAddress
  mailHdr : MailHeader
  data : List (BitVec 8)
  deriving DecidableEq, Repr

/-- The mail in the bytes behind a packet header. -/
def Message.read (pktHdr : PacketHeader) (payload : Bytes) : Message :=
  let mailHdr := MailHeader.load payload
  ⟨pktHdr.from_, mailHdr, bytes (behind headerSize payload) mailHdr.length.toNat⟩

/-- The box exists. -/
def ValidBox (numBoxes : Int) (box : MailBoxAddress) : Prop := 0 ≤ box.toInt ∧ box.toInt < numBoxes

instance (numBoxes : Int) (box : MailBoxAddress) : Decidable (ValidBox numBoxes box) :=
  inferInstanceAs (Decidable (_ ∧ _))

/-- What the receiving side asserts of a packet, and that its two lengths agree. -/
structure Legal (numBoxes : Int) (ident : NetworkAddress) (pktHdr : PacketHeader)
    (payload : Bytes) : Prop where
  to_ : pktHdr.to_ = ident
  length : pktHdr.length.toNat = (MailHeader.load payload).length.toNat + headerSize
  size : (MailHeader.load payload).length.toNat ≤ MaxMailSize
  box : ValidBox numBoxes (MailHeader.load payload).to_

/-- The packet is legal and holds the mail. -/
structure Carries (numBoxes : Int) (ident : NetworkAddress) (pktHdr : PacketHeader)
    (payload : Bytes) (message : Message) : Prop where
  legal : Legal numBoxes ident pktHdr payload
  read : Message.read pktHdr payload = message

variable {numBoxes : Int} {ident : NetworkAddress} {pktHdr : PacketHeader}
  {payload payload' : Bytes} {message : Message}

theorem Legal.carries (h : Legal numBoxes ident pktHdr payload) :
    Carries numBoxes ident pktHdr payload (.read pktHdr payload) := ⟨h, rfl⟩

/-- A legal packet is not empty. -/
theorem Legal.length_ne_zero (h : Legal numBoxes ident pktHdr payload) : pktHdr.length ≠ 0 := by
  intro hzero
  have hlength := h.length
  rw [hzero] at hlength
  simp only [headerSize] at hlength
  exact absurd hlength (by show 0 ≠ _; omega)

/-- A legal packet is not too long. -/
theorem Legal.length_le (h : Legal numBoxes ident pktHdr payload) :
    pktHdr.length.toNat ≤ MaxPacketSize := by
  have hlength := h.length
  have hsize := h.size
  simp only [MaxMailSize, MaxPacketSize, MaxWireSize, headerSize] at hlength hsize ⊢
  omega

/-- Copying as many bytes as the packet header says keeps the packet. -/
theorem Carries.congr (h : Carries numBoxes ident pktHdr payload message)
    (hcopy : ∀ o < pktHdr.length.toNat, payload' o = payload o) :
    Carries numBoxes ident pktHdr payload' message := by
  have hlength := h.legal.length
  have hhdr : MailHeader.load payload' = MailHeader.load payload :=
    MailHeader.load_congr fun o ho => hcopy o (by omega)
  have hdata : bytes (behind headerSize payload') (MailHeader.load payload).length.toNat =
      bytes (behind headerSize payload) (MailHeader.load payload).length.toNat :=
    bytes_congr fun o ho => hcopy (headerSize + o) (by omega)
  refine ⟨⟨h.legal.to_, ?_, ?_, ?_⟩, ?_⟩
  · rw [hhdr]
    exact hlength
  · rw [hhdr]
    exact h.legal.size
  · rw [hhdr]
    exact h.legal.box
  · rw [← h.read, Message.read, Message.read, hhdr, hdata]

/-- `PostOffice::Send` lays out a legal packet with the mail it was given. -/
theorem carries_mailBuffer (raw data : Bytes) {mailHdr : MailHeader}
    (hsize : mailHdr.length.toNat ≤ MaxMailSize) (hbox : ValidBox numBoxes mailHdr.to_)
    (source : NetworkAddress) :
    Carries numBoxes ident ⟨ident, source, mailHdr.length + 12⟩ (mailBuffer raw mailHdr data)
      ⟨source, mailHdr, bytes data mailHdr.length.toNat⟩ := by
  have hload : MailHeader.load (mailBuffer raw mailHdr data) = mailHdr := by
    apply MailHeader.load_eq
    intro o ho
    rw [mailBuffer, bcopy_of_lt _ _ ho, MailHeader.store, bcopy_zero_apply _ _ ho]
  refine ⟨⟨rfl, ?_, ?_, ?_⟩, ?_⟩
  · rw [hload]
    simp only [MaxMailSize, MaxPacketSize, MaxWireSize, headerSize] at hsize ⊢
    bv_omega
  · rw [hload]
    exact hsize
  · rw [hload]
    exact hbox
  · rw [Message.read, hload]
    have hdata : bytes (behind headerSize (mailBuffer raw mailHdr data)) mailHdr.length.toNat =
        bytes data mailHdr.length.toNat :=
      bytes_congr fun o ho => bcopy_apply data _ ho
    rw [hdata]

/-- `Network::Send` puts the packet behind its header. -/
theorem load_wireBuffer (raw data : Bytes) (hdr : PacketHeader) :
    PacketHeader.load (wireBuffer raw hdr data) = hdr := by
  apply PacketHeader.load_eq
  intro o ho
  rw [wireBuffer, bcopy_of_lt _ _ ho, PacketHeader.store, bcopy_zero_apply _ _ ho]

/-- What is read from the wire is what was sent. -/
theorem Carries.wireBuffer (h : Carries numBoxes ident pktHdr payload message) (raw : Bytes) :
    Carries numBoxes ident (PacketHeader.load (wireBuffer raw pktHdr payload))
      (behind headerSize (wireBuffer raw pktHdr payload)) message := by
  rw [load_wireBuffer]
  exact h.congr fun o ho => bcopy_apply payload _ ho

end Nachos.Post
