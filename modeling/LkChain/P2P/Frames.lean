import LkChain.Validators.ParseTx

/-!
# The secret connection

`SecretConnection` of the peer-to-peer layer cuts what is written into chunks and sends each one in
a frame, sealed or compressed. A read takes one frame and keeps what does not fit into the buffer of
the caller. The libraries for sealing and compressing are parameters. So is the connection
underneath: the bytes that arrive until it ends, and the answers to the next writes.
-/

namespace LkChain.P2P.Frames

open Validators.ParseTx (Bytes)

def dataLenSize : ℕ := 4

def encodeTypeSize : ℕ := 1

def frameVersionSize : ℕ := 1

def frameHeaderSize : ℕ := dataLenSize + encodeTypeSize + frameVersionSize

def dataMaxSize : ℕ := 32 * 1024

def totalFrameSize : ℕ := dataMaxSize + frameHeaderSize

def overhead : ℕ := 16

def sealedFrameSize : ℕ := totalFrameSize + overhead

def frameCapacity : ℕ := 65535

/-- The values of `frameEncodeType`. -/
inductive FrameType where
  | encrypt
  | compressed
deriving DecidableEq

/-- `encryptFrameType` and `compressedFrameType`. -/
def FrameType.code : FrameType → UInt8
  | .encrypt => 1
  | .compressed => 2

def frameVersion : UInt8 := 1

/-- The bytes of a nonce, the most significant one first. -/
abbrev Nonce := List UInt8

/-! ## Libraries -/

/-- `snappy`: decoding inverts encoding, and an encoding is not much longer than what it encodes. -/
structure Snappy where
  encode : Bytes → Bytes
  decode : Bytes → Except String Bytes
  decode_encode : ∀ bytes, decode (encode bytes) = .ok bytes
  length_encode_le : ∀ bytes, (encode bytes).length ≤ 32 + bytes.length + bytes.length / 6

/-- `secretbox` with the shared secret: opening inverts sealing. -/
structure SecretBox where
  sealBox : Bytes → Nonce → Bytes
  openBox : Bytes → Nonce → Option Bytes
  openBox_sealBox : ∀ bytes nonce, openBox (sealBox bytes nonce) nonce = some bytes
  length_sealBox : ∀ bytes nonce, (sealBox bytes nonce).length = bytes.length + overhead

structure Setup where
  frameEncodeType : FrameType
  snappy : Snappy
  box : SecretBox

def putUint32 (value : ℕ) : Bytes :=
  [UInt8.ofNat (value / 2 ^ 24), UInt8.ofNat (value / 2 ^ 16), UInt8.ofNat (value / 2 ^ 8),
    UInt8.ofNat value]

def uint32 (bytes : Bytes) : ℕ :=
  (bytes.take 4).foldl (fun value byte ↦ value * 2 ^ 8 + byte.toNat) 0

/-- The loop of `incrNonce`, from the last byte on. -/
def carry : List UInt8 → List UInt8
  | [] => []
  | byte :: rest => if byte + 1 = 0 then 0 :: carry rest else (byte + 1) :: rest

def incrNonce (nonce : Nonce) : Nonce := (carry nonce.reverse).reverse

def incr2Nonce (nonce : Nonce) : Nonce := incrNonce (incrNonce nonce)

/-- The built-in `copy`: the destination afterwards. -/
def copy (destination source : Bytes) : Bytes :=
  source.take destination.length ++ destination.drop source.length

/-! ## The connection underneath -/

/-- The bytes that arrive before the connection ends, the bytes sent, and the answers to the next
writes: a failed one may have sent some bytes. Writes succeed when no answers are given. -/
structure Conn where
  incoming : Bytes
  outgoing : Bytes
  answers : List (Option (ℕ × String))

/-- The errors of `Read`. -/
inductive ReadError where
  | eof
  | unexpectedEOF
  | text (message : String)
deriving DecidableEq, Repr

/-- `io.ReadFull` of so many bytes. -/
def Conn.readFull (conn : Conn) (size : ℕ) : Conn × Except ReadError Bytes :=
  if size ≤ conn.incoming.length then
    ({ conn with incoming := conn.incoming.drop size }, .ok (conn.incoming.take size))
  else if conn.incoming = [] then (conn, .error .eof)
  else ({ conn with incoming := [] }, .error .unexpectedEOF)

def Conn.write (conn : Conn) (bytes : Bytes) : Conn × Option String :=
  match conn.answers with
  | some (sent, error) :: answers =>
    ({ conn with outgoing := conn.outgoing ++ bytes.take sent, answers := answers }, some error)
  | none :: answers =>
    ({ conn with outgoing := conn.outgoing ++ bytes, answers := answers }, none)
  | [] => ({ conn with outgoing := conn.outgoing ++ bytes }, none)

/-! ## Frames -/

structure SecretConnection where
  conn : Conn
  recvBuffer : Bytes
  recvNonce : Nonce
  sendNonce : Nonce

/-- `cmn.PanicCrisis`. -/
inductive Panic where
  | crisis (message : String)
deriving DecidableEq, Repr

section Functions

variable (setup : Setup)

/-- The header of a frame. `Read` looks at the length only. -/
def header (length : ℕ) : Bytes :=
  putUint32 length ++ [setup.frameEncodeType.code, frameVersion]

/-- The frame of a chunk: in the encrypted mode of a fixed size, with zeros behind the chunk. -/
def frame (chunk : Bytes) : Bytes :=
  match setup.frameEncodeType with
  | .encrypt =>
    header setup chunk.length ++ chunk ++ List.replicate (dataMaxSize - chunk.length) 0
  | .compressed =>
    let encodedChunk := setup.snappy.encode chunk
    header setup encodedChunk.length ++ encodedChunk

/-- One round of the loop of `Write`. -/
def SecretConnection.writeChunk (sc : SecretConnection) (chunk : Bytes) :
    Except Panic (SecretConnection × Option String) :=
  match setup.frameEncodeType with
  | .encrypt =>
    let sealedFrame := setup.box.sealBox (frame setup chunk) sc.sendNonce
    let (conn, error) := sc.conn.write sealedFrame
    .ok ({ sc with conn := conn, sendNonce := incr2Nonce sc.sendNonce }, error)
  | .compressed =>
    let encodedChunkLen := (setup.snappy.encode chunk).length
    if frameCapacity < encodedChunkLen then
      .error (.crisis ("encodedChunkLen is greater than frameCapacity, encodedChunkLen=" ++
        toString encodedChunkLen ++ ", frameCapacity=" ++ toString frameCapacity))
    else
      let (conn, error) := sc.conn.write (frame setup chunk)
      .ok ({ sc with conn := conn }, error)

/-- The loop of `Write`, with the number of bytes that have been written. -/
def SecretConnection.writeLoop (sc : SecretConnection) (n : ℕ) (data : Bytes) :
    Except Panic (SecretConnection × ℕ × Option String) :=
  if data = [] then .ok (sc, n, none)
  else do
    let chunk := data.take dataMaxSize
    let (sc, error) ← sc.writeChunk setup chunk
    match error with
    | some error => return (sc, n, some error)
    | none => sc.writeLoop (n + chunk.length) (data.drop dataMaxSize)
termination_by data.length
decreasing_by
  rename_i hdata
  rw [List.length_drop]
  exact Nat.sub_lt (List.length_pos_iff.mpr hdata) (by decide)

def SecretConnection.write (sc : SecretConnection) (data : Bytes) :
    Except Panic (SecretConnection × ℕ × Option String) :=
  sc.writeLoop setup 0 data

/-- The part of `Read` that takes a frame from the connection. -/
def SecretConnection.readChunk (sc : SecretConnection) :
    SecretConnection × Except ReadError Bytes :=
  match setup.frameEncodeType with
  | .encrypt =>
    match sc.conn.readFull sealedFrameSize with
    | (conn, .error error) => ({ sc with conn := conn }, .error error)
    | (conn, .ok sealedFrame) =>
      match setup.box.openBox sealedFrame sc.recvNonce with
      | none => ({ sc with conn := conn }, .error (.text "Failed to decrypt SecretConnection"))
      | some frame =>
        let sc := { sc with conn := conn, recvNonce := incr2Nonce sc.recvNonce }
        let chunkLength := uint32 frame
        if dataMaxSize < chunkLength then
          (sc, .error (.text "chunkLength is greater than dataMaxSize"))
        else (sc, .ok ((frame.drop frameHeaderSize).take chunkLength))
  | .compressed =>
    match sc.conn.readFull frameHeaderSize with
    | (conn, .error error) => ({ sc with conn := conn }, .error error)
    | (conn, .ok frameHdr) =>
      let frameLen := uint32 frameHdr
      if dataMaxSize < frameLen then
        ({ sc with conn := conn }, .error (.text "chunkLength is greater than dataMaxSize"))
      else
        match conn.readFull frameLen with
        | (conn, .error error) => ({ sc with conn := conn }, .error error)
        | (conn, .ok encodedChunk) =>
          match setup.snappy.decode encodedChunk with
          | .error message => ({ sc with conn := conn }, .error (.text message))
          | .ok chunk =>
            if dataMaxSize < chunk.length then
              ({ sc with conn := conn }, .error (.text ("chunkLength=" ++ toString chunk.length ++
                " is greater than dataMaxSize")))
            else ({ sc with conn := conn }, .ok chunk)

/-- What `Read` leaves in the buffer of the caller, and what it returns. -/
structure ReadResult where
  sc : SecretConnection
  data : Bytes
  n : ℕ
  err : Option ReadError

/-- The bytes that the caller is told about. -/
def ReadResult.delivered (result : ReadResult) : Bytes := result.data.take result.n

/-- `Read`. The number of bytes that are copied from `recvBuffer` is assigned to another variable
than the one that is returned. -/
def SecretConnection.read (sc : SecretConnection) (data : Bytes) : ReadResult :=
  if 0 < sc.recvBuffer.length then
    ⟨{ sc with recvBuffer := sc.recvBuffer.drop (min data.length sc.recvBuffer.length) },
      copy data sc.recvBuffer, 0, none⟩
  else
    match sc.readChunk setup with
    | (sc, .error error) => ⟨sc, data, 0, some error⟩
    | (sc, .ok chunk) =>
      let n := min data.length chunk.length
      ⟨{ sc with recvBuffer := chunk.drop n }, copy data chunk, n, none⟩

/-- Reads with these buffers, one after the other: the bytes that are delivered without an error,
and the connection afterwards. -/
def SecretConnection.readAll : SecretConnection → List Bytes → Bytes × SecretConnection
  | sc, [] => ([], sc)
  | sc, data :: buffers =>
    let result := sc.read setup data
    let rest := SecretConnection.readAll result.sc buffers
    ((if result.err = none then result.delivered else []) ++ rest.1, rest.2)

end Functions

/-! ## Libraries to compute with -/

/-- A compressor that never compresses: it puts a byte in front. -/
def literalSnappy : Snappy where
  encode bytes := 0 :: bytes
  decode bytes := match bytes with
    | 0 :: rest => .ok rest
    | _ => .error "snappy: corrupt input"
  decode_encode _ := rfl
  length_encode_le bytes := by
    rw [List.length_cons]
    omega

/-- A box with an empty authenticator. -/
def plainBox : SecretBox where
  sealBox bytes _ := List.replicate overhead 0 ++ bytes
  openBox bytes _ := some (bytes.drop overhead)
  openBox_sealBox bytes _ := by
    rw [List.drop_left' List.length_replicate]
  length_sealBox bytes _ := by
    rw [List.length_append, List.length_replicate, Nat.add_comm]

def sampleSetup (frameEncodeType : FrameType) : Setup := ⟨frameEncodeType, literalSnappy, plainBox⟩

/-- A new connection on which these bytes arrive. -/
def sampleConnection (incoming : Bytes) : SecretConnection :=
  ⟨⟨incoming, [], []⟩, [], List.replicate 24 0, List.replicate 24 0⟩

end LkChain.P2P.Frames
