import Hat.Core.Framed
import Hat.Core.Machine
import Mathlib.Algebra.Group.Nat.Defs
import Mathlib.Data.List.GetD
import Mathlib.Data.Nat.Notation
import Mathlib.Logic.Function.Basic

/-!
# The websocket client

A socket writes every message as a frame of its own, masked or not, and reads the frames of the
other end out of whatever bytes have come in.  Two such sockets that are connected to each other
give on what they are sent in order and as a whole, however the bytes are cut on their way.
-/

namespace Hat.EasyWsClient

inductive OpcodeType
  | continuation
  | textFrame
  | binaryFrame
  | close
  | ping
  | pong
  deriving DecidableEq

def OpcodeType.code : OpcodeType → UInt8
  | continuation => 0x0
  | textFrame => 0x1
  | binaryFrame => 0x2
  | close => 8
  | ping => 9
  | pong => 0xa

structure MaskingKey where
  k0 : UInt8
  k1 : UInt8
  k2 : UInt8
  k3 : UInt8
  deriving DecidableEq

namespace MaskingKey

def bytes (key : MaskingKey) : List UInt8 := [key.k0, key.k1, key.k2, key.k3]

def masked (key : MaskingKey) (bytes : List UInt8) : List UInt8 :=
  bytes.mapIdx fun i byte => byte ^^^ key.bytes.getD (i &&& 0x3) 0

end MaskingKey

/-- The header of a frame, with the masking key behind the length. -/
def header (type : OpcodeType) (size : ℕ) (key : Option MaskingKey) : List UInt8 :=
  let flag : UInt8 := if key.isSome then 0x80 else 0
  [0x80 ||| type.code] ++
    (if size < 126 then [UInt8.ofNat size ||| flag]
      else if size < 65536 then
        (126 ||| flag) :: [8, 0].map fun shift => UInt8.ofNat (size >>> shift)
      else
        (127 ||| flag) :: [56, 48, 40, 32, 24, 16, 8, 0].map fun shift =>
          UInt8.ofNat (size >>> shift)) ++
    match key with
    | some key => key.bytes
    | none => []

structure WsHeader where
  headerSize : ℕ
  fin : Bool
  opcode : UInt8
  mask : Bool
  N : ℕ
  maskingKey : MaskingKey
  deriving DecidableEq

/-- The shifted bytes do not overlap. -/
def bigEndian (bytes : List UInt8) : ℕ := bytes.foldl (fun n byte => n * 256 + byte.toNat) 0

def readHeader (rxbuf : List UInt8) : WsHeader :=
  let data i := rxbuf.getD i 0
  let mask := data 1 &&& 0x80 == 0x80
  let N0 := (data 1 &&& 0x7f).toNat
  let i := if N0 < 126 then 2 else if N0 = 126 then 4 else 10
  { headerSize := 2 + (if N0 = 126 then 2 else 0) + (if N0 = 127 then 8 else 0) +
      (if mask then 4 else 0)
    fin := data 0 &&& 0x80 == 0x80
    opcode := data 0 &&& 0x0f
    mask := mask
    N :=
      if N0 < 126 then N0
      else if N0 = 126 then bigEndian [data 2, data 3]
      else bigEndian [data 2, data 3, data 4, data 5, data 6, data 7, data 8, data 9]
    maskingKey :=
      if mask then ⟨data i, data (i + 1), data (i + 2), data (i + 3)⟩ else ⟨0, 0, 0, 0⟩ }

/-- A frame as it is read, its payload unmasked. -/
structure Frame where
  fin : Bool
  opcode : UInt8
  payload : List UInt8
  deriving DecidableEq

/-- What stands in front of the buffer.  The sum of the sizes is taken in 64 bits; where it wraps
around, the payload is read from behind the buffer. -/
def cut (rxbuf : List UInt8) : Cut Frame UInt8 :=
  if rxbuf.length < 2 then .wait
  else
    let ws := readHeader rxbuf
    if rxbuf.length < ws.headerSize then .wait
    else if rxbuf.length < (ws.headerSize + ws.N) % 2 ^ 64 then .wait
    else if rxbuf.length < ws.headerSize + ws.N then .bad
    else
      let body := (rxbuf.drop ws.headerSize).take ws.N
      .item ⟨ws.fin, ws.opcode, if ws.mask then ws.maskingKey.masked body else body⟩
        (rxbuf.drop (ws.headerSize + ws.N))

inductive ReadyState
  | closing
  | closed
  | connecting
  | opened
  deriving DecidableEq

structure WebSocket where
  rxbuf : List UInt8
  txbuf : List UInt8
  receivedData : List UInt8
  readyState : ReadyState
  useMask : Bool
  deriving DecidableEq

def theKey : MaskingKey := ⟨0x12, 0x34, 0x56, 0x78⟩

/-- A frame as it is written. -/
structure Outgoing where
  type : OpcodeType
  key : Option MaskingKey
  payload : List UInt8

namespace Outgoing

def body (frame : Outgoing) : List UInt8 :=
  match frame.key with
  | some key => key.masked frame.payload
  | none => frame.payload

def bytes (frame : Outgoing) : List UInt8 :=
  header frame.type frame.payload.length frame.key ++ frame.body

end Outgoing

namespace WebSocket

def accepts (ws : WebSocket) : Bool := ws.readyState ≠ .closing && ws.readyState ≠ .closed

def sendData (type : OpcodeType) (message : List UInt8) (ws : WebSocket) : WebSocket :=
  if ws.accepts then
    let frame : Outgoing := ⟨type, if ws.useMask then some theKey else none, message⟩
    { ws with txbuf := ws.txbuf ++ frame.bytes }
  else ws

def sendPing : WebSocket → WebSocket := sendData .ping []

def send : List UInt8 → WebSocket → WebSocket := sendData .textFrame

def sendBinary : List UInt8 → WebSocket → WebSocket := sendData .binaryFrame

def close (ws : WebSocket) : WebSocket :=
  if ws.accepts then
    { ws with
      readyState := .closing
      txbuf := ws.txbuf ++ [0x88, 0x80, 0x00, 0x00, 0x00, 0x00] }
  else ws

/-- What is done about a frame, with the messages that were given on so far. -/
def handle (done : WebSocket × List (List UInt8)) (frame : Frame) :
    WebSocket × List (List UInt8) :=
  let (ws, given) := done
  if frame.opcode = OpcodeType.textFrame.code ∨ frame.opcode = OpcodeType.binaryFrame.code ∨
      frame.opcode = OpcodeType.continuation.code then
    let receivedData := ws.receivedData ++ frame.payload
    if frame.fin then ({ ws with receivedData := [] }, given ++ [receivedData])
    else ({ ws with receivedData := receivedData }, given)
  else if frame.opcode = OpcodeType.ping.code then (ws.sendData .pong frame.payload, given)
  else if frame.opcode = OpcodeType.pong.code then (ws, given)
  else (ws.close, given)

/-- The socket after all that has come in as a whole, and the messages that it gives on. -/
def dispatchBinary (ws : WebSocket) : Option (WebSocket × List (List UInt8)) :=
  (Framed.drain cut handle ws.rxbuf.length (ws, []) ws.rxbuf).map fun (done, rxbuf) =>
    ({ done.1 with rxbuf := rxbuf }, done.2)

/-- The end or an error of what can be read closes the socket, so that nothing is written. -/
def recv (bytes : List UInt8) (ended : Bool) (ws : WebSocket) : WebSocket :=
  { ws with
    rxbuf := ws.rxbuf ++ bytes
    readyState := if ended then .closed else ws.readyState }

def write (count : ℕ) (failed : Bool) (ws : WebSocket) : WebSocket :=
  let txbuf := ws.txbuf.drop count
  { ws with
    txbuf := txbuf
    readyState := if failed && txbuf ≠ [] then .closed else ws.readyState }

/-- A poll that can read the bytes and write some of its own, with the socket after it and what it
has written. -/
def poll (bytes : List UInt8) (ended : Bool) (count : ℕ) (failed : Bool) (ws : WebSocket) :
    WebSocket × List UInt8 :=
  if ws.readyState = .closed then (ws, [])
  else
    let ws := ws.recv bytes ended
    let count := if ended then 0 else count
    let after := ws.write count (failed || ended)
    (if after.txbuf = [] ∧ after.readyState = .closing then { after with readyState := .closed }
      else after, ws.txbuf.take count)

end WebSocket

/-- The two ends of a connection, with the bytes on their way from each, the messages that were
accepted at each and those that each gave on. -/
structure Link where
  ends : Bool → WebSocket
  wire : Bool → List UInt8
  sent : Bool → List (List UInt8)
  given : Bool → List (List UInt8)

namespace Link

/-- A program at an end sends, closes or dispatches; an end polls when some bytes have come in and
some of its own can be written. -/
inductive Move
  | send (side : Bool) (message : List UInt8)
  | sendBinary (side : Bool) (message : List UInt8)
  | sendPing (side : Bool)
  | close (side : Bool)
  | poll (side : Bool) (received : ℕ) (ended : Bool) (count : ℕ) (failed : Bool)
  | dispatch (side : Bool)

def setEnd (side : Bool) (ws : WebSocket) (link : Link) : Link :=
  { link with ends := Function.update link.ends side ws }

/-- A message counts as sent if the socket takes it. -/
def post (side : Bool) (message : List UInt8) (ws : WebSocket) (link : Link) : Link :=
  { link.setEnd side ws with
    sent := if (link.ends side).accepts then
        Function.update link.sent side (link.sent side ++ [message])
      else link.sent }

/-- A socket that is closed does not read. -/
def poll (side : Bool) (received : ℕ) (ended : Bool) (count : ℕ) (failed : Bool) (link : Link) :
    Link :=
  let ws := link.ends side
  let received := if ws.readyState = .closed then 0 else received
  let (after, bytes) := ws.poll ((link.wire !side).take received) ended count failed
  { link.setEnd side after with
    wire := fun other =>
      if other = side then link.wire side ++ bytes else (link.wire other).drop received }

def dispatch (side : Bool) (link : Link) : Option Link :=
  (link.ends side).dispatchBinary.map fun (ws, messages) =>
    { link.setEnd side ws with
      given := Function.update link.given side (link.given side ++ messages) }

def step (link : Link) : Move → Option Link
  | .send side message =>
      some (link.post side message ((link.ends side).send message))
  | .sendBinary side message =>
      some (link.post side message ((link.ends side).sendBinary message))
  | .sendPing side => some (link.setEnd side (link.ends side).sendPing)
  | .close side => some (link.setEnd side (link.ends side).close)
  | .poll side received ended count failed => some (link.poll side received ended count failed)
  | .dispatch side => link.dispatch side

/-- Two sockets that were just connected. -/
def opened (useMask : Bool → Bool) : Link :=
  ⟨fun side => ⟨[], [], [], .opened, useMask side⟩, fun _ => [], fun _ => [], fun _ => []⟩

/-- What an end has written and the other one has not read. -/
def underWay (link : Link) (side : Bool) : List UInt8 :=
  (link.ends !side).rxbuf ++ link.wire side ++ (link.ends side).txbuf

end Link

/-! ## What is written is read -/

namespace MaskingKey

@[simp]
theorem length_masked (key : MaskingKey) (bytes : List UInt8) :
    (key.masked bytes).length = bytes.length := List.length_mapIdx

/-- Masking twice changes nothing. -/
@[simp]
theorem masked_masked (key : MaskingKey) (bytes : List UInt8) :
    key.masked (key.masked bytes) = bytes := by
  apply List.ext_getElem
  · rw [length_masked, length_masked]
  · intro i _ _
    simp only [masked, List.getElem_mapIdx, UInt8.xor_assoc, UInt8.xor_self, UInt8.xor_zero]

end MaskingKey

/-- A length that is not behind the second byte, or the mark of one that is. -/
theorem read_lengthByte (n : ℕ) (hn : n < 128) (mask : Bool) :
    let byte := UInt8.ofNat n ||| if mask then 0x80 else 0
    (byte &&& 0x7f).toNat = n ∧ (byte &&& 0x80 == 0x80) = mask := by
  have hall : ∀ n : Fin 128, ∀ mask : Bool,
      let byte := UInt8.ofNat n ||| if mask then 0x80 else 0
      (byte &&& 0x7f).toNat = n ∧ (byte &&& 0x80 == 0x80) = mask := by
    decide +kernel
  exact hall ⟨n, hn⟩ mask

theorem bigEndian_two {size : ℕ} (hsize : size < 65536) :
    bigEndian ([8, 0].map fun shift => UInt8.ofNat (size >>> shift)) = size := by
  simp only [bigEndian, List.map_cons, List.map_nil, List.foldl_cons, List.foldl_nil,
    UInt8.toNat_ofNat', Nat.shiftRight_eq_div_pow]
  omega

theorem bigEndian_eight {size : ℕ} (hsize : size < 2 ^ 64) :
    bigEndian ([56, 48, 40, 32, 24, 16, 8, 0].map fun shift => UInt8.ofNat (size >>> shift)) =
      size := by
  simp only [bigEndian, List.map_cons, List.map_nil, List.foldl_cons, List.foldl_nil,
    UInt8.toNat_ofNat', Nat.shiftRight_eq_div_pow]
  omega

theorem read_firstByte (type : OpcodeType) :
    (0x80 ||| type.code) &&& 0x0f = type.code ∧ ((0x80 ||| type.code) &&& 0x80 == 0x80) = true := by
  cases type <;> decide

/-- The header that is read of a frame. -/
def written (type : OpcodeType) (size : ℕ) (key : Option MaskingKey) : WsHeader where
  headerSize := (header type size key).length
  fin := true
  opcode := type.code
  mask := key.isSome
  N := size
  maskingKey := key.getD ⟨0, 0, 0, 0⟩

/-- The header whose length is in the second byte. -/
theorem readHeader_cons {b0 b1 : UInt8} {mask : Bool} (hmask : (b1 &&& 0x80 == 0x80) = mask)
    {n : ℕ} (hn : (b1 &&& 0x7f).toNat = n) (rest : List UInt8) :
    readHeader (b0 :: b1 :: rest) =
      { headerSize := 2 + (if n = 126 then 2 else 0) + (if n = 127 then 8 else 0) +
          (if mask then 4 else 0)
        fin := b0 &&& 0x80 == 0x80
        opcode := b0 &&& 0x0f
        mask := mask
        N :=
          if n < 126 then n
          else if n = 126 then bigEndian [rest.getD 0 0, rest.getD 1 0]
          else bigEndian [rest.getD 0 0, rest.getD 1 0, rest.getD 2 0, rest.getD 3 0,
            rest.getD 4 0, rest.getD 5 0, rest.getD 6 0, rest.getD 7 0]
        maskingKey :=
          let i := if n < 126 then 0 else if n = 126 then 2 else 8
          if mask then ⟨rest.getD i 0, rest.getD (i + 1) 0, rest.getD (i + 2) 0,
            rest.getD (i + 3) 0⟩ else ⟨0, 0, 0, 0⟩ } := by
  have hkey : (if n < 126 then 2 else if n = 126 then 4 else 10) =
      (if n < 126 then 0 else if n = 126 then 2 else 8) + 2 := by
    split
    · rfl
    · split <;> rfl
  rw [readHeader, ← hmask, ← hn] at *
  simp only [List.getD_cons_zero, List.getD_cons_succ, hkey]

theorem readHeader_header (type : OpcodeType) {size : ℕ} (hsize : size < 2 ^ 64)
    (key : Option MaskingKey) (rest : List UInt8) :
    readHeader (header type size key ++ rest) = written type size key := by
  obtain ⟨hopcode, hfin⟩ := read_firstByte type
  by_cases hsmall : size < 126
  · obtain ⟨hlength, hmask⟩ := read_lengthByte size (by omega) key.isSome
    simp only [header, if_pos hsmall, List.cons_append, List.nil_append, written]
    rw [readHeader_cons hmask hlength, hopcode, hfin]
    have hneither : size ≠ 126 ∧ size ≠ 127 := by omega
    cases key <;> simp [MaskingKey.bytes, hsmall, hneither]
  · by_cases hmiddle : size < 65536
    · obtain ⟨hlength, hmask⟩ := read_lengthByte 126 (by omega) key.isSome
      have hvalue := bigEndian_two hmiddle
      simp only [header, if_neg hsmall, if_pos hmiddle, List.cons_append, List.nil_append, written]
      rw [show (126 : UInt8) = UInt8.ofNat 126 from rfl, readHeader_cons hmask hlength, hopcode,
        hfin]
      cases key <;> simp [MaskingKey.bytes] at hvalue ⊢ <;> exact hvalue
    · obtain ⟨hlength, hmask⟩ := read_lengthByte 127 (by omega) key.isSome
      have hvalue := bigEndian_eight hsize
      simp only [header, if_neg hsmall, if_neg hmiddle, List.cons_append, List.nil_append, written]
      rw [show (127 : UInt8) = UInt8.ofNat 127 from rfl, readHeader_cons hmask hlength, hopcode,
        hfin]
      cases key <;> simp [MaskingKey.bytes] at hvalue ⊢ <;> exact hvalue

/-- A header that is in the buffer as a whole is read without what is behind it. -/
theorem readHeader_append {bytes : List UInt8} (htwo : 2 ≤ bytes.length)
    (hheader : (readHeader bytes).headerSize ≤ bytes.length) (more : List UInt8) :
    readHeader (bytes ++ more) = readHeader bytes := by
  obtain ⟨b0, b1, rest, rfl⟩ : ∃ b0 b1 rest, bytes = b0 :: b1 :: rest := by
    match bytes, htwo with
    | b0 :: b1 :: rest, _ => exact ⟨b0, b1, rest, rfl⟩
  have hn : (b1 &&& 0x7f).toNat ≤ 127 := by
    rw [UInt8.toNat_and]
    exact Nat.and_le_right
  rw [List.cons_append, List.cons_append, readHeader_cons rfl rfl, readHeader_cons rfl rfl]
  rw [readHeader_cons rfl rfl] at hheader
  generalize (b1 &&& 0x7f).toNat = n at *
  generalize (b1 &&& 0x80 == 0x80) = mask at *
  have hget : ∀ i < rest.length, (rest ++ more).getD i 0 = rest.getD i 0 :=
    fun i hi => List.getD_append rest more 0 i hi
  simp only [List.length_cons] at hheader
  rcases (by omega : n < 126 ∨ n = 126 ∨ n = 127) with hsmall | rfl | rfl
  · have hneither : n ≠ 126 ∧ n ≠ 127 := by omega
    simp only [hsmall, hneither, if_false, if_true] at hheader ⊢
    cases mask
    · rfl
    · simp only [if_true] at hheader ⊢
      simp (disch := omega) only [hget]
  all_goals
    cases mask <;>
      simp only [Nat.reduceLT, Nat.reduceEqDiff, if_false, if_true, Bool.false_eq_true]
        at hheader ⊢ <;>
      simp (disch := omega) only [hget]

namespace Outgoing

/-- The frame is in range of the sums in 64 bits, its header included. -/
def Fits (frame : Outgoing) : Prop := frame.payload.length + 14 < 2 ^ 64

def value (frame : Outgoing) : Frame := ⟨true, frame.type.code, frame.payload⟩

variable {frame : Outgoing}

theorem length_header_le (type : OpcodeType) (size : ℕ) (key : Option MaskingKey) :
    2 ≤ (header type size key).length ∧ (header type size key).length ≤ 14 := by
  simp only [header]
  cases key <;> split <;> (try split) <;> simp [MaskingKey.bytes]

theorem length_body (frame : Outgoing) : frame.body.length = frame.payload.length := by
  rw [body]
  split
  · exact MaskingKey.length_masked _ _
  · rfl

theorem readHeader_bytes (hfits : frame.Fits) (rest : List UInt8) :
    readHeader (frame.bytes ++ rest) = written frame.type frame.payload.length frame.key := by
  rw [bytes, List.append_assoc]
  apply readHeader_header
  rw [Fits] at hfits
  omega

/-- A frame that is in the buffer as a whole is cut off. -/
theorem cut_bytes (hfits : frame.Fits) (rest : List UInt8) :
    cut (frame.bytes ++ rest) = .item frame.value rest := by
  obtain ⟨htwo, hfourteen⟩ := length_header_le frame.type frame.payload.length frame.key
  have hread := readHeader_bytes hfits rest
  rw [Fits] at hfits
  have hlength : (frame.bytes ++ rest).length =
      (header frame.type frame.payload.length frame.key).length + frame.payload.length +
        rest.length := by
    rw [bytes, List.length_append, List.length_append, length_body]
  simp only [cut, hread, hlength, written]
  rw [if_neg (by omega), if_neg (by omega), Nat.mod_eq_of_lt (by omega), if_neg (by omega),
    if_neg (by omega), bytes, List.append_assoc, List.drop_left, List.drop_length_add_append,
    ← length_body, List.take_left, List.drop_left, value]
  congr 2
  rw [body]
  cases frame.key with
  | none => rfl
  | some key => exact key.masked_masked frame.payload

/-- A part of a frame is left in the buffer. -/
theorem cut_short (hfits : frame.Fits) {bytes more : List UInt8}
    (hbytes : bytes ++ more = frame.bytes) (hmore : more ≠ []) : cut bytes = .wait := by
  obtain ⟨-, hfourteen⟩ := length_header_le frame.type frame.payload.length frame.key
  have hlength : bytes.length + more.length =
      (header frame.type frame.payload.length frame.key).length + frame.payload.length := by
    rw [← List.length_append, hbytes, Outgoing.bytes, List.length_append, length_body]
  have hpos := List.length_pos_of_ne_nil hmore
  simp only [cut]
  split
  · rfl
  · rename_i htwo
    split
    · rfl
    · rename_i hheader
      have hread := readHeader_bytes hfits []
      rw [← hbytes, List.append_assoc, readHeader_append (by omega) (by omega)] at hread
      rw [Fits] at hfits
      simp only [hread, written]
      rw [Nat.mod_eq_of_lt (by omega), if_pos (by omega)]

end Outgoing

def frames : Framed Outgoing Frame UInt8 where
  fits := Outgoing.Fits
  frame := Outgoing.bytes
  value := Outgoing.value
  cut := cut
  cut_nil := rfl
  cut_frame := Outgoing.cut_bytes
  cut_short := Outgoing.cut_short

/-! ## What arrives -/

/-- The message in a frame, if there is one. -/
def Outgoing.message (frame : Outgoing) : Option (List UInt8) :=
  match frame.type with
  | .continuation | .textFrame | .binaryFrame => some frame.payload
  | .close | .ping | .pong => none

/-- Some bytes are followed by frames that carry no message. -/
def Answers (before after : List UInt8) : Prop :=
  ∃ replies : List Outgoing, (∀ reply ∈ replies, reply.Fits ∧ reply.message = none) ∧
    after = before ++ frames.write replies

theorem Answers.refl (bytes : List UInt8) : Answers bytes bytes :=
  ⟨[], fun _ h => absurd h List.not_mem_nil, (List.append_nil bytes).symm⟩

theorem Answers.trans {before middle after : List UInt8} (h : Answers before middle)
    (h' : Answers middle after) : Answers before after := by
  obtain ⟨first, hfirst, rfl⟩ := h
  obtain ⟨more, hmore, rfl⟩ := h'
  refine ⟨first ++ more, fun reply hreply => ?_, ?_⟩
  · exact (List.mem_append.mp hreply).elim (hfirst reply) (hmore reply)
  · rw [Framed.write_append, List.append_assoc]

theorem Answers.single (before : List UInt8) (reply : Outgoing) (hfits : reply.Fits)
    (hmessage : reply.message = none) : Answers before (before ++ reply.bytes) := by
  refine ⟨[reply], fun other hother => ?_, ?_⟩
  · rw [List.mem_singleton.mp hother]
    exact ⟨hfits, hmessage⟩
  · rw [Framed.write_singleton]
    rfl

namespace WebSocket

variable {ws : WebSocket}

theorem answers_sendData {type : OpcodeType} {message : List UInt8}
    (hfits : message.length + 14 < 2 ^ 64) (hmessage : Outgoing.message ⟨type, none, message⟩ = none) :
    Answers ws.txbuf (ws.sendData type message).txbuf := by
  rw [sendData]
  split
  · exact Answers.single _ _ hfits hmessage
  · exact Answers.refl _

theorem answers_close : Answers ws.txbuf ws.close.txbuf := by
  have hempty : ([] : List UInt8).length + 14 < 2 ^ 64 := by decide
  rw [close]
  split
  · exact Answers.single _ ⟨.close, some ⟨0, 0, 0, 0⟩, []⟩ hempty rfl
  · exact Answers.refl _

/-- A frame is given on if it carries a message; a ping is answered. -/
theorem handle_value (given : List (List UInt8)) {frame : Outgoing} (hfits : frame.Fits)
    (hreceived : ws.receivedData = []) :
    (handle (ws, given) frame.value).1.receivedData = [] ∧
      Answers ws.txbuf (handle (ws, given) frame.value).1.txbuf ∧
        (handle (ws, given) frame.value).2 = given ++ frame.message.toList := by
  obtain ⟨type, key, payload⟩ := frame
  have hdata : ∀ ws' : WebSocket, ws'.receivedData = [] → ws'.receivedData ++ payload = payload :=
    fun ws' h => by rw [h, List.nil_append]
  cases type with
  | continuation => exact ⟨rfl, Answers.refl _, congrArg (given ++ [·]) (hdata ws hreceived)⟩
  | textFrame => exact ⟨rfl, Answers.refl _, congrArg (given ++ [·]) (hdata ws hreceived)⟩
  | binaryFrame => exact ⟨rfl, Answers.refl _, congrArg (given ++ [·]) (hdata ws hreceived)⟩
  | close =>
      refine ⟨?_, answers_close, (List.append_nil given).symm⟩
      change ws.close.receivedData = []
      rw [close]
      split <;> exact hreceived
  | ping =>
      refine ⟨?_, answers_sendData hfits rfl, (List.append_nil given).symm⟩
      change (ws.sendData .pong payload).receivedData = []
      rw [sendData]
      split <;> exact hreceived
  | pong => exact ⟨hreceived, Answers.refl _, (List.append_nil given).symm⟩

theorem foldl_handle {values : List Outgoing} (hfits : ∀ frame ∈ values, frame.Fits)
    (hreceived : ws.receivedData = []) (given : List (List UInt8)) :
    let after := (values.map frames.value).foldl handle (ws, given)
    after.1.receivedData = [] ∧ Answers ws.txbuf after.1.txbuf ∧
      after.2 = given ++ values.filterMap Outgoing.message := by
  induction values generalizing ws given with
  | nil => exact ⟨hreceived, Answers.refl _, (List.append_nil given).symm⟩
  | cons frame rest ih =>
      obtain ⟨hfirst, hrest⟩ := List.forall_mem_cons.mp hfits
      obtain ⟨hempty, hanswers, hgiven⟩ := handle_value given hfirst hreceived
      obtain ⟨hreceived', hmore, hall⟩ := ih hrest hempty (handle (ws, given) frame.value).2
      refine ⟨hreceived', hanswers.trans hmore, hall.trans ?_⟩
      rw [hgiven, List.append_assoc]
      cases hmessage : frame.message with
      | none => rw [List.filterMap_cons_none hmessage]; rfl
      | some message => rw [List.filterMap_cons_some hmessage]; rfl

/-- The frames that have come in as a whole are handled, and the rest is kept. -/
theorem dispatchBinary_spec {values : List Outgoing} (hfits : ∀ frame ∈ values, frame.Fits)
    {more : List UInt8} (hbytes : ws.rxbuf ++ more = frames.write values)
    (hreceived : ws.receivedData = []) :
    ∃ done rest after, values = done ++ rest ∧
      ws.dispatchBinary = some (after, done.filterMap Outgoing.message) ∧
        after.receivedData = [] ∧ Answers ws.txbuf after.txbuf ∧
          after.rxbuf ++ more = frames.write rest := by
  obtain ⟨done, rest, left, hvalues, hdrain, hleft, -⟩ :=
    Framed.drain_spec handle hfits hbytes (Nat.le_refl _) (ws, [])
  have hdone : ∀ frame ∈ done, frame.Fits := fun frame hframe =>
    hfits frame (hvalues ▸ List.mem_append_left rest hframe)
  obtain ⟨hempty, hanswers, hgiven⟩ := foldl_handle hdone hreceived []
  have hdispatch : ws.dispatchBinary = some
      ({ ((done.map frames.value).foldl handle (ws, [])).1 with rxbuf := left },
        ((done.map frames.value).foldl handle (ws, [])).2) := by
    rw [dispatchBinary]
    exact congrArg (Option.map _) hdrain
  rw [hgiven, List.nil_append] at hdispatch
  exact ⟨done, rest, _, hvalues, hdispatch, hempty, hanswers, hleft⟩

/-- A poll moves bytes but for what it closes. -/
theorem poll_spec (bytes : List UInt8) (ended : Bool) (count : ℕ) (failed : Bool)
    (hclosed : ws.readyState = .closed → bytes = []) :
    let polled := ws.poll bytes ended count failed
    polled.1.rxbuf = ws.rxbuf ++ bytes ∧ polled.2 ++ polled.1.txbuf = ws.txbuf ∧
      polled.1.receivedData = ws.receivedData := by
  rw [poll]
  split
  · rename_i hstate
    rw [hclosed hstate, List.append_nil]
    exact ⟨rfl, rfl, rfl⟩
  · dsimp only
    generalize (if ended then 0 else count) = n
    split <;> exact ⟨rfl, List.take_append_drop n ws.txbuf, rfl⟩

end WebSocket

/-- The bytes under way are whole frames, which carry what was sent and not yet given on. -/
def Carries (bytes : List UInt8) (sent given : List (List UInt8)) : Prop :=
  ∃ values : List Outgoing, (∀ frame ∈ values, frame.Fits) ∧ bytes = frames.write values ∧
    sent = given ++ values.filterMap Outgoing.message

theorem Carries.append {bytes : List UInt8} {sent given : List (List UInt8)}
    (h : Carries bytes sent given) (frame : Outgoing) (hfits : frame.Fits) :
    Carries (bytes ++ frame.bytes) (sent ++ frame.message.toList) given := by
  obtain ⟨values, hvalues, rfl, rfl⟩ := h
  refine ⟨values ++ [frame], ?_, ?_, ?_⟩
  · exact List.forall_mem_append.mpr ⟨hvalues, List.forall_mem_singleton.mpr hfits⟩
  · rw [Framed.write_append, Framed.write_singleton]
    rfl
  · rw [List.filterMap_append, List.append_assoc]
    cases hmessage : frame.message <;> simp [hmessage]

theorem Carries.answers {bytes before after : List UInt8} {sent given : List (List UInt8)}
    (h : Carries (bytes ++ before) sent given) (hanswers : Answers before after) :
    Carries (bytes ++ after) sent given := by
  obtain ⟨replies, hreplies, rfl⟩ := hanswers
  obtain ⟨values, hvalues, hbytes, rfl⟩ := h
  have hnone : replies.filterMap Outgoing.message = [] :=
    List.filterMap_eq_nil_iff.mpr fun reply hreply => (hreplies reply hreply).2
  refine ⟨values ++ replies, ?_, ?_, ?_⟩
  · exact List.forall_mem_append.mpr ⟨hvalues, fun reply hreply => (hreplies reply hreply).1⟩
  · rw [Framed.write_append, ← hbytes, List.append_assoc]
  · rw [List.filterMap_append, hnone, List.append_nil]

namespace Link

variable {link : Link}

/-- No message is put together from several frames, and each direction carries what is missing at
its other end. -/
def Sound (link : Link) : Prop :=
  ∀ side, (link.ends side).receivedData = [] ∧
    Carries (link.underWay side) (link.sent side) (link.given !side)

def Move.Fits : Move → Prop
  | .send _ message | .sendBinary _ message => message.length + 14 < 2 ^ 64
  | _ => True

theorem sound_opened (useMask : Bool → Bool) : (opened useMask).Sound := fun _ =>
  ⟨rfl, [], fun _ h => absurd h List.not_mem_nil, rfl, rfl⟩

/-- A move changes one end, whose own direction and the other one are seen to apart. -/
theorem Sound.next (h : link.Sound) {side : Bool} {ws : WebSocket} {next : Link}
    (hends : next.ends = Function.update link.ends side ws) (hreceived : ws.receivedData = [])
    (hout : Carries ((link.ends !side).rxbuf ++ next.wire side ++ ws.txbuf) (next.sent side)
      (next.given !side))
    (hin : Carries (ws.rxbuf ++ next.wire (!side) ++ (link.ends !side).txbuf) (next.sent !side)
      (next.given side)) : next.Sound := by
  have hself : next.ends side = ws := by
    rw [hends, Function.update_self]
  have hother : next.ends (!side) = link.ends !side := by
    rw [hends, Function.update_of_ne (by simp)]
  rw [Sound, Bool.forall_bool' side, underWay, underWay, Bool.not_not, hself, hother]
  exact ⟨⟨hreceived, hout⟩, (h !side).1, hin⟩

/-- What comes in at an end. -/
theorem Sound.incoming (h : link.Sound) (side : Bool) :
    Carries ((link.ends side).rxbuf ++ link.wire (!side) ++ (link.ends !side).txbuf)
      (link.sent !side) (link.given side) := by
  have hcarries := (h !side).2
  rw [underWay, Bool.not_not] at hcarries
  exact hcarries

/-- An end that only answers changes nothing of the messages. -/
theorem Sound.setEnd (h : link.Sound) {side : Bool} {ws : WebSocket}
    (hrxbuf : ws.rxbuf = (link.ends side).rxbuf)
    (hreceived : ws.receivedData = (link.ends side).receivedData)
    (hanswers : Answers (link.ends side).txbuf ws.txbuf) : (link.setEnd side ws).Sound := by
  apply h.next rfl (hreceived.trans (h side).1)
  · exact (h side).2.answers hanswers
  · rw [hrxbuf]
    exact h.incoming side

theorem Sound.post (h : link.Sound) {side : Bool} {type : OpcodeType} {message : List UInt8}
    (hfits : message.length + 14 < 2 ^ 64)
    (hmessage : ∀ key, Outgoing.message ⟨type, key, message⟩ = some message) :
    (link.post side message ((link.ends side).sendData type message)).Sound := by
  rw [Link.post, WebSocket.sendData]
  by_cases haccepts : (link.ends side).accepts = true
  · rw [if_pos haccepts, if_pos haccepts]
    refine h.next rfl (h side).1 ?_ ?_
    · have hcarries := (h side).2.append
        ⟨type, if (link.ends side).useMask then some theKey else none, message⟩ hfits
      rw [hmessage, underWay, List.append_assoc] at hcarries
      dsimp only
      rw [Function.update_self]
      exact hcarries
    · dsimp only
      rw [Function.update_of_ne (by simp)]
      exact h.incoming side
  · rw [if_neg haccepts, if_neg haccepts]
    exact h.setEnd rfl rfl (Answers.refl _)

theorem Sound.poll (h : link.Sound) (side : Bool) (received : ℕ) (ended : Bool) (count : ℕ)
    (failed : Bool) : (link.poll side received ended count failed).Sound := by
  rw [Link.poll]
  have hzero : (link.ends side).readyState = .closed →
      (link.wire !side).take (if (link.ends side).readyState = .closed then 0 else received) = [] :=
    fun hclosed => by rw [if_pos hclosed, List.take_zero]
  generalize (if (link.ends side).readyState = .closed then 0 else received) = n at *
  obtain ⟨hrxbuf, htxbuf, hreceived⟩ := WebSocket.poll_spec _ ended count failed hzero
  apply h.next rfl (hreceived.trans (h side).1)
  · have hcarries := (h side).2
    rw [underWay, ← htxbuf, ← List.append_assoc] at hcarries
    dsimp only
    rw [if_pos rfl, ← List.append_assoc]
    exact hcarries
  · have hcarries := h.incoming side
    dsimp only
    rw [if_neg (by simp), hrxbuf, List.append_assoc, List.append_assoc, ← List.append_assoc _ _
      (link.ends !side).txbuf, List.take_append_drop, ← List.append_assoc]
    exact hcarries

theorem Sound.dispatch (h : link.Sound) (side : Bool) :
    ∃ next, link.dispatch side = some next ∧ next.Sound := by
  have hcarries := h.incoming side
  rw [List.append_assoc] at hcarries
  obtain ⟨values, hvalues, hbytes, hsent⟩ := hcarries
  obtain ⟨done, rest, after, hsplit, hdispatch, hempty, hanswers, hleft⟩ :=
    WebSocket.dispatchBinary_spec hvalues hbytes (h side).1
  rw [Link.dispatch, hdispatch]
  refine ⟨_, rfl, h.next rfl hempty ?_ ?_⟩
  · dsimp only
    rw [Function.update_of_ne (by simp)]
    exact (h side).2.answers hanswers
  · dsimp only
    rw [Function.update_self, List.append_assoc]
    refine ⟨rest, fun frame hframe => ?_, hleft, ?_⟩
    · exact hvalues frame (hsplit ▸ List.mem_append_right done hframe)
    · exact hsent.trans (by rw [hsplit, List.filterMap_append, List.append_assoc])

theorem Sound.step (h : link.Sound) {move : Move} (hfits : move.Fits) :
    ∃ next, link.step move = some next ∧ next.Sound := by
  cases move with
  | send side message => exact ⟨_, rfl, h.post hfits fun _ => rfl⟩
  | sendBinary side message => exact ⟨_, rfl, h.post hfits fun _ => rfl⟩
  | sendPing side =>
      refine ⟨_, rfl, h.setEnd ?_ ?_ (WebSocket.answers_sendData (by decide) rfl)⟩ <;>
        rw [WebSocket.sendPing, WebSocket.sendData] <;> split <;> rfl
  | close side =>
      refine ⟨_, rfl, h.setEnd ?_ ?_ WebSocket.answers_close⟩ <;>
        rw [WebSocket.close] <;> split <;> rfl
  | poll side received ended count failed => exact ⟨_, rfl, h.poll side received ended count failed⟩
  | dispatch side => exact h.dispatch side

theorem Sound.exec (h : link.Sound) {moves : List Move} (hfits : ∀ move ∈ moves, move.Fits) :
    ∃ final, Machine.exec Link.step link moves = some final ∧ final.Sound := by
  induction moves generalizing link with
  | nil => exact ⟨link, rfl, h⟩
  | cons move rest ih =>
      obtain ⟨hmove, hrest⟩ := List.forall_mem_cons.mp hfits
      obtain ⟨next, hnext, hsound⟩ := h.step hmove
      rw [Machine.exec_cons, hnext, Option.bind_some]
      exact ih hsound hrest

/-- In any order of sending, closing, polling and dispatching at both ends, no end reads what it
may not, and it gives on what the other one was sent, in order, up to what is under way. -/
theorem given_of_exec (useMask : Bool → Bool) {moves : List Move}
    (hfits : ∀ move ∈ moves, move.Fits) :
    ∃ final, Machine.exec step (opened useMask) moves = some final ∧ ∀ side,
      ∃ pending, final.sent side = final.given (!side) ++ pending ∧
        (final.underWay side = [] → pending = []) := by
  obtain ⟨final, hexec, hsound⟩ := (sound_opened useMask).exec hfits
  refine ⟨final, hexec, fun side => ?_⟩
  obtain ⟨values, hvalues, hbytes, hsent⟩ := (hsound side).2
  refine ⟨values.filterMap Outgoing.message, hsent, fun hnothing => ?_⟩
  cases values with
  | nil => rfl
  | cons frame rest =>
      rw [hnothing, Framed.write_cons] at hbytes
      have hframe := (List.append_eq_nil_iff.mp hbytes.symm).1
      exact absurd hframe (Framed.frame_ne_nil (hvalues frame List.mem_cons_self))

/-- A masked text that comes in two parts, with a ping between the parts. -/
def helloMoves : List Move :=
  [.send true [72, 105], .poll true 0 false 5 false, .poll false 5 false 0 false, .dispatch false,
    .sendPing false, .poll true 0 false 3 false, .poll false 3 false 2 false, .dispatch false]

theorem given_of_exec_hello :
    ∃ final, Machine.exec step (opened id) helloMoves = some final ∧
      final.given false = [[72, 105]] ∧ ∀ side,
        ∃ pending, final.sent side = final.given (!side) ++ pending ∧
          (final.underWay side = [] → pending = []) := by
  have hfits : ∀ move ∈ helloMoves, move.Fits := by
    rw [helloMoves]
    simp [Move.Fits]
  have hgiven : (Machine.exec step (opened id) helloMoves).map (fun final => final.given false) =
      some [[72, 105]] := by decide +kernel
  obtain ⟨final, hexec, hends⟩ := given_of_exec id hfits
  rw [hexec] at hgiven
  exact ⟨final, hexec, Option.some.inj hgiven, hends⟩

end Link

end Hat.EasyWsClient
