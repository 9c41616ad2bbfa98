import Iotc.Lib.Exits
import Iotc.Web.Basic

/-!
# The web client of NetX: packets and the control block

`NX_WEB_HTTP_CLIENT` and the world it works in are one record `St`. A packet is what stands
between its prepend and its append pointer, with its address; a `Chain` is a packet and the packets
linked to it, and the `nx_packet_length` of its head is the number of its bytes. The functions of
`nx_web_http_client.c` are programs in `M`: they leave early with the status they return, or with
`Exit.fault` where the C program has no defined behaviour.

NetX itself is outside of the repository. `St.incoming` holds what later receive calls give,
`Pool` what the packet pool does.
-/

namespace Iotc.Http

open Iotc.C Iotc.Web Iotc.Lib

def nxNoPacket : UINT := 0x01
def nxInvalidPacket : UINT := 0x12
def nxNotFound : UINT := 0x4E
def nxWebHttpError : UINT := 0x30000
def nxWebHttpFailed : UINT := 0x30002
def nxWebHttpBadPacketLength : UINT := 0x3000D
def nxWebHttpRequestUnsuccessfulCode : UINT := 0x3000E
def nxWebHttpMethodError : UINT := 0x30014

/-- What a `UINT` or `ULONG` keeps of a number. -/
def u32 (n : Nat) : Nat := n % 4294967296

theorem u32_of_lt {n : Nat} (h : n < 4294967296) : u32 n = n := Nat.mod_eq_of_lt h

theorem u32_lt (n : Nat) : u32 n < 4294967296 := Nat.mod_lt _ (by decide)

/-- What holds of every byte of a list is decided along the list. -/
scoped instance (priority := high) decidableForallMem {α : Type} {p : α → Prop} [DecidablePred p]
    (xs : List α) : Decidable (∀ x ∈ xs, p x) := List.decidableBAll p xs

/-! ## Packets -/

/-- `room` is what is free behind the append pointer. -/
structure NxPacket where
  ptr : Nat
  data : List UInt8
  room : Nat := 0
  deriving DecidableEq, Repr

structure Chain where
  head : NxPacket
  next : List NxPacket
  deriving DecidableEq, Repr

namespace Chain

def packets (c : Chain) : List NxPacket := c.head :: c.next

def bytes (c : Chain) : List UInt8 := c.head.data ++ c.next.flatMap (·.data)

/-- The `nx_packet_length` of the head. -/
def length (c : Chain) : Nat := c.bytes.length

def ptrs (c : Chain) : List Nat := c.packets.map (·.ptr)

/-- A packet linked behind another holds something. -/
def Full (c : Chain) : Prop := ∀ p ∈ c.next, p.data ≠ []

instance (c : Chain) : Decidable c.Full :=
  inferInstanceAs (Decidable (∀ p ∈ c.next, p.data ≠ []))

@[simp] theorem bytes_mk (p : NxPacket) (ps : List NxPacket) :
    Chain.bytes ⟨p, ps⟩ = p.data ++ ps.flatMap (·.data) := rfl

/-- The last packet takes more bytes. -/
def push (xs : List UInt8) (p : NxPacket) : NxPacket :=
  { p with data := p.data ++ xs, room := p.room - xs.length }

def pushLast (xs : List UInt8) : NxPacket → List NxPacket → Chain
  | p, [] => ⟨push xs p, []⟩
  | p, q :: qs => ⟨p, (pushLast xs q qs).packets⟩

def lastRoom : NxPacket → List NxPacket → Nat
  | p, [] => p.room
  | _, q :: qs => lastRoom q qs

theorem bytes_pushLast (xs : List UInt8) (p : NxPacket) (qs : List NxPacket) :
    (pushLast xs p qs).bytes = Chain.bytes ⟨p, qs⟩ ++ xs := by
  induction qs generalizing p with
  | nil => simp [pushLast, push]
  | cons q qs ih =>
    have hq := ih q
    simp only [bytes, packets, pushLast, List.flatMap_cons] at hq ⊢
    rw [hq]
    simp

/-- The last packet takes as many of the bytes as it has room for, and `more` comes behind it. -/
def extend (c : Chain) (xs : List UInt8) (more : List NxPacket) : Chain :=
  let filled := pushLast (xs.take (lastRoom c.head c.next)) c.head c.next
  ⟨filled.head, filled.next ++ more⟩

end Chain

/-- A packet as the receive calls of NetX hand it over. -/
structure Received where
  chain : Chain
  full : chain.Full

/-- The status of a call that failed. -/
structure Failure where
  status : UINT
  err : status ≠ nxSuccess ∧ status ≠ nxWebHttpGetDone

/-- What `nx_packet_data_append` has done when it returns; `allocated` counts all allocations of the
pool so far. -/
structure Appending where
  result : Except Failure Chain
  allocated : Nat
  released : List Nat

/-- The packet pool: the bytes a packet holds, what the successive allocations give, what it is to
append to a packet after a number of allocations, and whether the calls of NetX check their
arguments. -/
structure Pool where
  payload : Nat
  payload_pos : 0 < payload
  allocate : Nat → Except Failure Nat
  append : Nat → Chain → List UInt8 → Appending
  errorChecking : Bool

/-- The packets `more` take the bytes that the last packet of `c` has no room for; none of them is
empty. -/
structure Overflows (payload : Nat) (c : Chain) (xs : List UInt8) (more : List NxPacket) :
    Prop where
  bytes : more.flatMap (·.data) = xs.drop (Chain.lastRoom c.head c.next)
  each : ∀ p ∈ more, p.data ≠ [] ∧ p.data.length + p.room ≤ payload

/-- What NetX promises of a pool that never runs out of packets. -/
structure Pool.Serves (P : Pool) : Prop where
  allocates : ∀ n, ∃ ptr, P.allocate n = .ok ptr
  /-- The last packet is filled, and what is left goes to new packets. -/
  appends : ∀ n (c : Chain) xs, (P.errorChecking = true → xs ≠ []) → ∃ more : List NxPacket,
    Overflows P.payload c xs more ∧
      P.append n c xs = ⟨.ok (c.extend xs more), n + more.length, []⟩
  /-- Where the arguments are checked, there have to be bytes to append. -/
  checks : P.errorChecking = true → ∀ n c, ∃ e, P.append n c [] = ⟨.error e, n, []⟩

def spread (payload : Nat) : List Nat → List UInt8 → List NxPacket
  | [], _ => []
  | ptr :: ptrs, xs =>
    { ptr, data := xs.take payload, room := payload - xs.length } ::
      spread payload ptrs (xs.drop payload)

/-- A pool of packets of 128 bytes that never fails, without the checks of NetX, which the client
turns off. -/
def Pool.sample : Pool where
  payload := 128
  payload_pos := by decide
  allocate := .ok
  append n c xs :=
    let left := xs.drop (Chain.lastRoom c.head c.next)
    let ptrs := List.range' n ((left.length + 127) / 128)
    ⟨.ok (c.extend xs (spread 128 ptrs left)), n + ptrs.length, []⟩
  errorChecking := false

/-- As many new packets as it takes hold the bytes, and none of them is empty. -/
theorem spread_spec (payload : Nat) (hpos : 0 < payload) (ptrs : List Nat) (xs : List UInt8)
    (h : ptrs.length = (xs.length + (payload - 1)) / payload) :
    (spread payload ptrs xs).flatMap (·.data) = xs ∧
      (∀ p ∈ spread payload ptrs xs, p.data ≠ [] ∧ p.data.length + p.room ≤ payload) ∧
      (spread payload ptrs xs).length = ptrs.length := by
  induction ptrs generalizing xs with
  | nil =>
    have hlt := Nat.lt_of_div_eq_zero hpos h.symm
    have hnil : xs = [] := List.length_eq_zero_iff.mp (by omega)
    rw [hnil]
    exact ⟨rfl, nofun, rfl⟩
  | cons ptr ptrs ih =>
    rw [List.length_cons] at h
    have hlen : payload ≤ xs.length + (payload - 1) := by
      by_contra hlt
      rw [Nat.div_eq_of_lt (Nat.not_le.mp hlt)] at h
      omega
    have hcount : ptrs.length = ((xs.drop payload).length + (payload - 1)) / payload := by
      have hdiv := Nat.div_eq_sub_div hpos hlen
      rw [List.length_drop]
      rcases Nat.lt_or_ge xs.length payload with hlt | hge
      · rw [Nat.div_eq_of_lt (a := xs.length + (payload - 1) - payload) (by omega)] at hdiv
        rw [Nat.sub_eq_zero_of_le (Nat.le_of_lt hlt), Nat.div_eq_of_lt (by omega)]
        omega
      · rw [show xs.length + (payload - 1) - payload = xs.length - payload + (payload - 1) by omega]
          at hdiv
        omega
    obtain ⟨hbytes, hall, hlength⟩ := ih (xs.drop payload) hcount
    refine ⟨?_, fun p hp => ?_, ?_⟩
    · rw [spread, List.flatMap_cons, hbytes, List.take_append_drop]
    · rcases List.mem_cons.mp hp with rfl | hp
      · refine ⟨?_, ?_⟩
        · show xs.take payload ≠ []
          rw [Ne, List.take_eq_nil_iff, ← List.length_eq_zero_iff]
          omega
        · show (xs.take payload).length + (payload - xs.length) ≤ payload
          rw [List.length_take]
          omega
      · exact hall p hp
    · rw [spread, List.length_cons, List.length_cons, hlength]

theorem Pool.sample_serves : Pool.sample.Serves where
  allocates n := ⟨n, rfl⟩
  appends n c xs _ := by
    let left := xs.drop (Chain.lastRoom c.head c.next)
    obtain ⟨hbytes, hall, hlength⟩ := spread_spec 128 (by decide)
      (List.range' n ((left.length + 127) / 128)) left List.length_range'
    refine ⟨_, ⟨hbytes, hall⟩, ?_⟩
    rw [hlength]
    rfl
  checks := nofun

/-! ## The control block -/

inductive ClientState where
  | ready
  | get
  | put
  | post
  | head
  | delete
  deriving DecidableEq, Repr

inductive HttpMethod where
  | none
  | get
  | put
  | post
  | delete
  | head
  deriving DecidableEq, Repr

/-- `NX_WEB_HTTP_CLIENT`, with its prefix left out of the field names. -/
structure Client where
  state : ClientState := .ready
  totalTransferBytes : Nat := 0
  actualBytesTransferred : Nat := 0
  totalReceiveBytes : Nat := 0
  actualBytesReceived : Nat := 0
  requestPacketPtr : Option Chain := none
  method : HttpMethod := .none
  keepAlive : Bool := false
  responseHeaderReceived : Bool := false
  requestChunked : Bool := false
  responseChunked : Bool := false
  chunkedResponseRemainingSize : Nat := 0
  responsePacket : Option Chain := none
  responseCallback : Bool := false

/-- What is outside of the control block: the packets still to be received, how many allocations
were made, the packets released, the header fields the callback was told of, the packets sent,
what later send calls give, and how often the connection was broken down. -/
structure Net where
  incoming : List (Except Failure Received) := []
  allocated : Nat := 0
  released : List Nat := []
  reported : List (List UInt8 × List UInt8) := []
  sent : List Chain := []
  sending : List (Except Failure Unit) := []
  broken : Nat := 0

/-- `current` is what `current_packet_ptr` and `current_data_ptr` designate, the rest of a packet
and the packets behind it; `packetPptr` is the `response_packet_ptr` of the call for a body, which
the functions below it set through a pointer, `packetLength` the length set in it, and `returned`
what the caller's packet pointer shows. -/
structure St extends Client, Net where
  current : Option Chain := none
  packetPptr : Option Chain := none
  packetLength : Nat := 0
  returned : Option Chain := none

inductive Exit where
  | status (s : UINT)
  | fault
  | fuel
  deriving DecidableEq, Repr

abbrev M (α : Type) : Type := EStateM Exit St α

/-- Leave with a status. -/
def returns {α : Type} (status : UINT) : M α := throw (.status status)

def fault {α : Type} : M α := throw .fault

/-- The status a function returns, for a caller that looks at it. -/
def attempt {α : Type} (x : M α) : M (Except UINT α) := fun s =>
  match x s with
  | .ok a s' => .ok (.ok a) s'
  | .error (.status st) s' => .ok (.error st) s'
  | .error e s' => .error e s'

theorem bind_get_eq {α : Type} (f : St → M α) (s : St) : (get >>= f) s = f s s := rfl

theorem bind_set_eq {α : Type} (t : St) (f : PUnit → M α) (s : St) : (set t >>= f) s = f () t := rfl

theorem bind_ok {α β : Type} {x : M α} {f : α → M β} {s s' : St} {a : α} (hx : x s = .ok a s') :
    (x >>= f) s = f a s' := by
  show EStateM.bind x f s = _
  rw [EStateM.bind, hx]

theorem bind_error {α β : Type} {x : M α} {f : α → M β} {s s' : St} {e : Exit}
    (hx : x s = .error e s') : (x >>= f) s = .error e s' := by
  show EStateM.bind x f s = _
  rw [EStateM.bind, hx]

/-! ## NetX calls -/

/-- `nx_packet_release`, of a packet and the packets linked to it. -/
def nxPacketRelease (c : Chain) : M Unit :=
  modify fun s => { s with released := s.released ++ c.ptrs }

/-- One allocation. -/
def nxPacketAllocate (P : Pool) : M Nat := do
  let s ← get
  set { s with allocated := s.allocated + 1 }
  match P.allocate s.allocated with
  | .ok ptr => return ptr
  | .error e => returns e.status

/-- `nx_packet_data_append` -/
def nxPacketDataAppend (P : Pool) (c : Chain) (xs : List UInt8) : M Chain := do
  let s ← get
  let appending := P.append s.allocated c xs
  set { s with allocated := appending.allocated, released := s.released ++ appending.released }
  match appending.result with
  | .ok c => return c
  | .error e => returns e.status

/-- Bytes go behind those of the chain, in packets that are there already or in new ones. -/
theorem nxPacketDataAppend_eq {P : Pool} (hP : P.Serves) {c : Chain} {xs : List UInt8}
    (hne : P.errorChecking = true → xs ≠ []) (s : St) :
    ∃ more, Overflows P.payload c xs more ∧ nxPacketDataAppend P c xs s =
      .ok (c.extend xs more) { s with allocated := s.allocated + more.length } := by
  obtain ⟨more, hmore, hrun⟩ := hP.appends s.allocated c xs hne
  refine ⟨more, hmore, ?_⟩
  unfold nxPacketDataAppend
  rw [bind_get_eq]
  simp only [hrun, bind_set_eq, List.append_nil]
  rfl

/-- What there is room for makes no new packet. -/
theorem Overflows.eq_nil {payload : Nat} {c : Chain} {xs : List UInt8} {more : List NxPacket}
    (h : Overflows payload c xs more) (hxs : xs.length ≤ Chain.lastRoom c.head c.next) :
    more = [] := by
  cases more with
  | nil => rfl
  | cons p more =>
    have hbytes := h.bytes
    rw [List.drop_eq_nil_of_le hxs, List.flatMap_cons, List.append_eq_nil_iff] at hbytes
    exact absurd hbytes.1 (h.each p List.mem_cons_self).1

/-- `_nx_web_http_client_receive`; without a packet the wait ends with `NX_NO_PACKET`. -/
def receive : M Chain := do
  let s ← get
  match s.incoming with
  | [] => returns nxNoPacket
  | .error e :: rest => do
    set { s with incoming := rest }
    returns e.status
  | .ok p :: rest => do
    set { s with incoming := rest }
    return p.chain

theorem attempt_ok {α : Type} {x : M α} {s s' : St} {a : α} (h : x s = .ok a s') :
    attempt x s = .ok (.ok a) s' := by
  rw [attempt, h]

theorem attempt_status {α : Type} {x : M α} {s s' : St} {status : UINT}
    (h : x s = .error (.status status) s') : attempt x s = .ok (.error status) s' := by
  rw [attempt, h]

/-- The caller goes on with either end. -/
theorem meets_attempt {α : Type} {x : M α} {s : St} {Q : Except UINT α → St → Prop}
    {E : Exit → St → Prop}
    (h : Meets x s (fun a s' => Q (.ok a) s') fun e s' =>
      (∃ status, e = .status status ∧ Q (.error status) s') ∨ ((∀ st, e ≠ .status st) ∧ E e s')) :
    Meets (attempt x) s Q E := by
  unfold Meets attempt at *
  split at h
  · next hx => simpa [hx] using h
  · next e s' hx =>
    rcases h with ⟨status, rfl, hQ⟩ | ⟨hne, hE⟩
    · simpa [hx] using hQ
    · cases e with
      | status st => exact absurd rfl (hne st)
      | fault => simpa [hx] using hE
      | fuel => simpa [hx] using hE

theorem receive_eq (s : St) : receive s = match s.incoming with
    | [] => .error (.status nxNoPacket) s
    | .error e :: rest => .error (.status e.status) { s with incoming := rest }
    | .ok p :: rest => .ok p.chain { s with incoming := rest } := by
  unfold receive
  show (match s.incoming with | [] => _ | .error e :: rest => _ | .ok p :: rest => _ : M Chain) s = _
  cases s.incoming with
  | nil => rfl
  | cons x rest => cases x <;> rfl

/-- `_nx_web_http_client_error_exit`: the TLS session, if any, and the socket are closed. -/
def errorExit : M Unit := modify fun s => { s with broken := s.broken + 1 }

end Iotc.Http
