import Iotc.Http.ChunkedText
import Iotc.Http.Collect
import Iotc.Http.HeaderText
import Iotc.Http.Request
import Iotc.Lib.Base64

/-!
# The text of a request

`RequestArgs.text` is what a request with these arguments has to say, and `sendRequest`, the calls a
client makes for it, sends that text and nothing else (`meets_sendRequest`).
-/

namespace Iotc.Http

open Iotc.C Iotc.Web Iotc.Lib

/-! ## Numbers -/

/-- The digits of a number, none for zero. -/
theorem numberDigits_eq (places : Nat) {n : Nat} (hn : n < 10 ^ places) (string : List UInt8) :
    numberDigits places n string = ((if n = 0 then [] else Decimal.ofNat n) ++ string, 0) := by
  induction places generalizing n string with
  | zero =>
    obtain rfl : n = 0 := by simpa using hn
    rfl
  | succ places ih =>
    rw [numberDigits]
    by_cases hzero : n = 0
    · rw [if_pos hzero, if_pos hzero]
      rfl
    · have hrest := ih (n := n / 10) (by rw [Nat.pow_succ] at hn; omega)
        (.ofNat (n % 10 + 0x30) :: string)
      rw [if_neg hzero, if_neg hzero, hrest]
      rcases Nat.lt_or_ge n 10 with hlt | hge
      · rw [if_pos (by omega), Decimal.ofNat_of_lt hlt, Nat.mod_eq_of_lt hlt]
        rfl
      · rw [if_neg (by omega), Decimal.ofNat_of_le hge, List.append_assoc]
        rfl

/-- Ten places are enough. -/
theorem numberConvert_eq {n : UINT} (h : n ≠ 0) : numberConvert n = Decimal.ofNat n.toNat := by
  have hlt := n.toNat_lt
  have hne : n.toNat ≠ 0 := fun hzero => h (UInt32.toNat_inj.mp hzero)
  have hdigits := numberDigits_eq 10 (n := n.toNat) (by omega) []
  rw [if_neg hne, List.append_nil] at hdigits
  rw [numberConvert, hdigits]
  rfl

/-! ## Base64 -/

theorem base64Array_getD : ∀ n : Fin 64, base64Array.getD n.val 0 = Base64.char n.val := by
  decide +kernel

theorem getD_eq_char {n : Nat} (h : n < 64) : base64Array.getD n 0 = Base64.char n :=
  base64Array_getD ⟨n, h⟩

/-- The low bits of one byte and the high bits of the next. -/
theorem shift_or {x y i : Nat} (k : Nat) (h : y < 2 ^ i) :
    ((x &&& (2 ^ k - 1)) <<< i) ||| y = x % 2 ^ k * 2 ^ i + y := by
  rw [Nat.and_two_pow_sub_one_eq_mod, ← Nat.shiftLeft_add_eq_or_of_lt h, Nat.shiftLeft_eq]

theorem base64Step_first (a : UInt8) : base64Array.getD (a.toNat >>> 2) 0 = Base64.char (a.toNat / 4) := by
  have := a.toNat_lt
  rw [Nat.shiftRight_eq_div_pow]
  exact getD_eq_char (by omega)

theorem base64Step_second (a b : UInt8) :
    base64Array.getD (((a.toNat &&& 0x3) <<< 4) ||| (b.toNat >>> 4)) 0 =
      Base64.char (a.toNat % 4 * 16 + b.toNat / 16) := by
  have ha := a.toNat_lt
  have hb := b.toNat_lt
  have hor := shift_or (x := a.toNat) (y := b.toNat >>> 4) (i := 4) 2
    (by rw [Nat.shiftRight_eq_div_pow]; omega)
  rw [Nat.shiftRight_eq_div_pow] at hor ⊢
  exact (congrArg (base64Array.getD · 0) hor).trans (getD_eq_char (by omega))

theorem base64Step_third (b c : UInt8) :
    base64Array.getD (((b.toNat &&& 0xF) <<< 2) ||| (c.toNat >>> 6)) 0 =
      Base64.char (b.toNat % 16 * 4 + c.toNat / 64) := by
  have hb := b.toNat_lt
  have hc := c.toNat_lt
  have hor := shift_or (x := b.toNat) (y := c.toNat >>> 6) (i := 2) 4
    (by rw [Nat.shiftRight_eq_div_pow]; omega)
  rw [Nat.shiftRight_eq_div_pow] at hor ⊢
  exact (congrArg (base64Array.getD · 0) hor).trans (getD_eq_char (by omega))

theorem base64Step_fourth (c : UInt8) :
    base64Array.getD (c.toNat &&& 0x3F) 0 = Base64.char (c.toNat % 64) := by
  rw [Nat.and_two_pow_sub_one_eq_mod c.toNat 6]
  exact getD_eq_char (Nat.mod_lt _ (by decide))

theorem base64Chars_group (k : Nat) (a b c : UInt8) (rest : List UInt8) :
    base64Chars (k + 4) 0 (a :: b :: c :: rest) =
      Base64.char (a.toNat / 4) :: Base64.char (a.toNat % 4 * 16 + b.toNat / 16) ::
        Base64.char (b.toNat % 16 * 4 + c.toNat / 64) :: Base64.char (c.toNat % 64) ::
          base64Chars k 0 rest := by
  rw [← base64Step_first, ← base64Step_second, ← base64Step_third, ← base64Step_fourth]
  rfl

/-- Characters and padding of a last group of that many bytes. -/
def lastChars (n : Nat) : Nat := if n % 3 = 0 then 0 else n % 3 + 1

def lastPad (n : Nat) : Nat := if n % 3 = 0 then 0 else 3 - n % 3

theorem base64Chars_eq : ∀ name : List UInt8,
    base64Chars (4 * (name.length / 3) + lastChars name.length) 0 (name ++ [0]) ++
      List.replicate (lastPad name.length) Base64.pad = Base64.encode name
  | [] => rfl
  | [a] => by
    have hzero := base64Step_second a 0
    have hcount : 4 * ([a].length / 3) + lastChars [a].length = 2 := by simp [lastChars]
    rw [hcount, Base64.encode, ← base64Step_first]
    rw [show a.toNat % 4 * 16 = a.toNat % 4 * 16 + (0 : UInt8).toNat / 16 from rfl, ← hzero]
    rfl
  | [a, b] => by
    have hzero := base64Step_third b 0
    have hcount : 4 * ([a, b].length / 3) + lastChars [a, b].length = 3 := by simp [lastChars]
    rw [hcount, Base64.encode, ← base64Step_first, ← base64Step_second]
    rw [show b.toNat % 16 * 4 = b.toNat % 16 * 4 + (0 : UInt8).toNat / 64 from rfl, ← hzero]
    rfl
  | a :: b :: c :: rest => by
    have hlen : (a :: b :: c :: rest).length = rest.length + 3 := rfl
    have hcount : 4 * ((rest.length + 3) / 3) + lastChars (rest.length + 3) =
        4 * (rest.length / 3) + lastChars rest.length + 4 := by
      rw [Nat.add_div_right _ (by decide), lastChars, lastChars, Nat.add_mod_right]
      omega
    have hpad : lastPad (rest.length + 3) = lastPad rest.length := by
      rw [lastPad, lastPad, Nat.add_mod_right]
    rw [hlen, hcount, hpad, Base64.encode, ← base64Chars_eq rest]
    rw [List.cons_append, List.cons_append, List.cons_append, base64Chars_group]
    rfl

theorem length_base64Chars (k step : Nat) (name : List UInt8) : (base64Chars k step name).length = k := by
  induction k generalizing step name with
  | zero => rfl
  | succ k ih =>
    unfold base64Chars
    split <;> simp [ih]

/-- The text of `name`, cut where the array it goes to ends. -/
theorem base64Encode_eq {name : List UInt8} (h : name.length ≤ 41) :
    base64Encode name name.length = (Base64.encode name).take nxWebHttpMaxString := by
  have hmax : nxWebHttpMaxString = 55 := rfl
  have hwhole : u32 (name.length * 8) / 6 = name.length * 8 / 6 := by
    rw [u32_of_lt (by omega)]
  have hodd : u32 (name.length * 8 / 6 * 6) % 24 = if name.length % 3 = 0 then 0
      else (name.length % 3) * 6 := by
    rw [u32_of_lt (by omega)]
    rcases (by omega : name.length % 3 = 0 ∨ name.length % 3 = 1 ∨ name.length % 3 = 2)
      with hr | hr | hr <;> simp only [hr] <;> simp <;> omega
  have hcount : (if (if name.length % 3 = 0 then 0 else (name.length % 3) * 6) = 0 then
      name.length * 8 / 6 else name.length * 8 / 6 + 1) =
      4 * (name.length / 3) + lastChars name.length := by
    unfold lastChars
    split_ifs <;> omega
  have hpad : (if (if name.length % 3 = 0 then 0 else (name.length % 3) * 6) = 0 then 0
      else (24 - if name.length % 3 = 0 then 0 else (name.length % 3) * 6) / 6 - 1) =
      lastPad name.length := by
    unfold lastPad
    split_ifs <;> omega
  have hlen : 4 * (name.length / 3) + lastChars name.length ≤ 55 := by
    unfold lastChars
    split <;> omega
  rw [← base64Chars_eq name, base64Encode]
  simp only [hwhole, hodd, hcount, hpad]
  rw [List.take_append, length_base64Chars, hmax,
    List.take_of_length_le (by rw [length_base64Chars]; exact hlen), List.take_replicate,
    Nat.min_comm]
  rfl

/-- A name and a password that are accepted can be read back just when they are short enough
together: the array has no room for all the padding of longer ones. -/
theorem base64_readable (username password : CStr) (huser : username.length ≤ nxWebHttpMaxName)
    (hpass : password.length ≤ nxWebHttpMaxPassword) :
    let merged := username ++ 0x3A :: password
    Base64.decode (base64Encode merged merged.length) =
      if username.length + password.length ≤ 38 then some merged else none := by
  intro merged
  have hlen : merged.length = username.length + password.length + 1 := by
    simp [merged]
    omega
  have hmax : nxWebHttpMaxString = 55 := rfl
  have hshort : merged.length ≤ 41 := by
    simp only [nxWebHttpMaxName, nxWebHttpMaxPassword] at huser hpass
    omega
  rw [base64Encode_eq hshort]
  have hencode := Base64.length_encode merged
  split
  · rw [List.take_of_length_le (by omega), Base64.decode_encode]
  · cases hdecode : Base64.decode ((Base64.encode merged).take nxWebHttpMaxString) with
    | none => rfl
    | some bs =>
      have hfour := Base64.length_of_decode _ hdecode
      rw [List.length_take] at hfour
      omega

theorem base64_readable_full :
    Base64.decode (base64Encode (List.replicate 20 97 ++ 0x3A :: List.replicate 20 98) 41) = none :=
  (base64_readable (List.replicate 20 97) (List.replicate 20 98) (by decide) (by decide)).trans
    (if_neg (by decide))

/-! ## Putting a request together -/

/-- The request packet has `xs` more behind what it had. -/
structure Placed (xs : List UInt8) (s s' : St) : Prop where
  only : s' = { s with requestPacketPtr := s'.requestPacketPtr, allocated := s'.allocated }
  packet : ∃ c c', s.requestPacketPtr = some c ∧ s'.requestPacketPtr = some c' ∧
    c'.bytes = c.bytes ++ xs

/-- Whatever was placed before, the program places `xs`. -/
def Places (x : M Unit) (xs : List UInt8) : Prop :=
  ∀ s : St, s.requestPacketPtr.isSome → Meets x s (fun _ s' => Placed xs s s') (fun _ _ => False)

variable {P : Pool} {x y : M Unit} {xs ys : List UInt8} {s s' : St}

theorem Placed.isSome (h : Placed xs s s') : s'.requestPacketPtr.isSome := by
  obtain ⟨c, c', -, hc', -⟩ := h.packet
  rw [hc']
  rfl

theorem Placed.trans {s'' : St} (h : Placed xs s s') (h' : Placed ys s' s'') :
    Placed (xs ++ ys) s s'' := by
  obtain ⟨c, c', hc, hc', hbytes⟩ := h.packet
  obtain ⟨d, d', hd, hd', hbytes'⟩ := h'.packet
  obtain rfl : c' = d := Option.some.inj (hc'.symm.trans hd)
  refine ⟨?_, c, d', hc, hd', by rw [hbytes', hbytes, List.append_assoc]⟩
  rw [h'.only, h.only]

theorem Places.skip : Places (pure ()) [] := by
  intro s hs
  obtain ⟨c, hc⟩ := Option.isSome_iff_exists.mp hs
  exact .pure ⟨rfl, c, c, hc, hc, (List.append_nil _).symm⟩

theorem Places.seq (hx : Places x xs) (hy : Places y ys) :
    Places (x >>= fun _ => y) (xs ++ ys) := by
  intro s hs
  refine .seq (hx s hs) fun _ s1 h1 => ?_
  exact (hy s1 h1.isSome).mono (fun _ s2 h2 => h1.trans h2) fun _ _ => id

theorem Places.ite {c : Prop} [Decidable c] (hx : Places x xs) (hy : Places y ys) :
    Places (if c then x else y) (if c then xs else ys) := by
  split
  · exact hx
  · exact hy

theorem appendRequest_ok (hP : P.Serves) (hne : P.errorChecking = true → xs ≠ [])
    (hs : s.requestPacketPtr.isSome) :
    ∃ s', appendRequest P xs s = .ok () s' ∧ Placed xs s s' := by
  obtain ⟨c, hc⟩ := Option.isSome_iff_exists.mp hs
  obtain ⟨more, hmore, hrun⟩ := nxPacketDataAppend_eq hP (c := c) hne s
  refine ⟨{ s with
    allocated := s.allocated + more.length
    requestPacketPtr := some (c.extend xs more) }, ?_, rfl, c, _, hc, rfl, bytes_extend hmore⟩
  unfold appendRequest
  rw [bind_get_eq, hc]
  exact bind_ok hrun

/-- Where the status is dropped, nothing placed is nothing missing. -/
theorem places_place (hP : P.Serves) (xs : List UInt8) : Places (place P xs) xs := by
  intro s hs
  by_cases hne : P.errorChecking = true → xs ≠ []
  · obtain ⟨s', hrun, hplaced⟩ := appendRequest_ok hP hne hs
    exact .bind (.of_ok (attempt_ok hrun) (.pure hplaced))
  · rw [Classical.not_imp, not_not] at hne
    obtain ⟨hcheck, rfl⟩ := hne
    obtain ⟨c, hc⟩ := Option.isSome_iff_exists.mp hs
    obtain ⟨e, hchecked⟩ := hP.checks hcheck s.allocated c
    have hrun : appendRequest P [] s = .error (.status e.status) s := by
      have happend : nxPacketDataAppend P c [] s = .error (.status e.status) s := by
        unfold nxPacketDataAppend
        rw [bind_get_eq]
        simp only [hchecked, bind_set_eq, List.append_nil]
        rfl
      unfold appendRequest
      rw [bind_get_eq, hc]
      exact bind_error happend
    exact .bind (.of_ok (attempt_status hrun)
      (.pure ⟨rfl, c, c, hc, hc, (List.append_nil _).symm⟩))

/-- A field as it is written. -/
def fieldText (f : List UInt8 × List UInt8) : List UInt8 := f.1 ++ [0x3A, 0x20] ++ f.2 ++ crlf

/-- What is sent of a user and his password. -/
def basicAuth (username password : CStr) : List UInt8 :=
  cstr "Basic " ++ (Base64.encode (username ++ 0x3A :: password)).take nxWebHttpMaxString

/-- The fields a request starts with. -/
def RequestArgs.fields (a : RequestArgs) : List (List UInt8 × List UInt8) :=
  [(cstr "Host", a.host)] ++
    (match a.username, a.password with
      | some username, some password => [(cstr "Authorization", basicAuth username password)]
      | _, _ => []) ++
    (if a.inputSize ≠ 0 ∧ a.chunked = false then
      [(cstr "Content-Length", Decimal.ofNat a.inputSize.toNat)] else []) ++
    (if a.chunked then [(cstr "Transfer-Encoding", cstr "chunked")] else [])

/-- The resource, with the slash it needs. -/
def targetText (resource : CStr) : List UInt8 :=
  (if resource.getD 0 0 ≠ 0x2F ∧ hasScheme resource = false then cstr "/" else []) ++ resource

theorem Places.of_eq (h : Places x xs) (heq : xs = ys) : Places x ys := heq ▸ h

theorem places_resource (hP : P.Serves) (resource : CStr) :
    Places (placeResource P resource) (targetText resource ++ (cstr " HTTP/1.1" ++ crlf)) := by
  have hrest : Places (do place P resource; place P (cstr " HTTP/1.1"); place P crlf)
      (resource ++ (cstr " HTTP/1.1" ++ crlf)) :=
    (places_place hP _).seq ((places_place hP _).seq (places_place hP _))
  refine (Places.ite ((places_place hP (cstr "/")).seq hrest) hrest).of_eq ?_
  unfold targetText
  split
  · rw [List.append_assoc]
  · rfl

theorem places_host (hP : P.Serves) (host : CStr) :
    Places (placeHost P host) (fieldText (cstr "Host", host)) := by
  have hend := places_place hP crlf
  refine ((places_place hP (cstr "Host: ")).seq (.ite ((places_place hP host).seq hend) hend)).of_eq ?_
  split
  · rfl
  · next hnil =>
    rw [not_not] at hnil
    rw [hnil]
    rfl

theorem places_authorization (hP : P.Serves) {a : RequestArgs} (hok : ∀ username password,
    a.username = some username → a.password = some password →
      username.length + password.length ≤ 40) :
    Places (placeAuthorization P a.username a.password)
      ((match a.username, a.password with
        | some username, some password => [(cstr "Authorization", basicAuth username password)]
        | _, _ => []).flatMap fieldText) := by
  cases husername : a.username with
  | none => exact Places.skip
  | some username =>
    cases hpassword : a.password with
    | none => exact Places.skip
    | some password =>
      have hshort : (username ++ 0x3A :: password).length ≤ 41 := by
        have := hok username password husername hpassword
        simp only [List.length_append, List.length_cons]
        omega
      have hencode := base64Encode_eq hshort
      refine ((places_place hP _).seq ((places_place hP _).seq (places_place hP _))).of_eq ?_
      rw [hencode]
      simp [fieldText, basicAuth, cstr]

theorem places_length (hP : P.Serves) (a : RequestArgs) :
    Places (placeLength P a) (((if a.inputSize ≠ 0 ∧ a.chunked = false then
        [(cstr "Content-Length", Decimal.ofNat a.inputSize.toNat)] else []) ++
      (if a.chunked then [(cstr "Transfer-Encoding", cstr "chunked")] else [])).flatMap fieldText) := by
  have hcoding : Places (if a.chunked then do
        place P (cstr "Transfer-Encoding: chunked")
        place P crlf
      else pure ()) (if a.chunked then cstr "Transfer-Encoding: chunked" ++ crlf else []) :=
    .ite ((places_place hP _).seq (places_place hP _)) .skip
  have hlength := (places_place hP (cstr "Content-Length: ")).seq
    ((places_place hP (numberConvert a.inputSize)).seq ((places_place hP crlf).seq hcoding))
  refine (Places.ite hlength hcoding).of_eq ?_
  by_cases hsize : a.inputSize ≠ 0 ∧ a.chunked = false
  · rw [if_pos hsize, if_pos hsize, numberConvert_eq hsize.1, hsize.2]
    simp [fieldText, cstr]
  · rw [if_neg hsize, if_neg hsize]
    cases a.chunked <;> simp [fieldText, cstr]

/-! ## A whole request -/

/-- Up to the fields the client adds. -/
def RequestArgs.text (a : RequestArgs) : List UInt8 :=
  (methodText a.method).getD [] ++ targetText a.resource ++ (cstr " HTTP/1.1" ++ crlf) ++
    a.fields.flatMap fieldText

/-- A request has begun. -/
structure Begun (a : RequestArgs) (s s' : St) : Prop where
  text : ∃ c, s'.requestPacketPtr = some c ∧ c.bytes = a.text
  only : s' = { s with
    requestPacketPtr := s'.requestPacketPtr
    allocated := s'.allocated
    released := s.released ++ (s.requestPacketPtr.map Chain.ptrs).getD []
    method := a.method
    totalTransferBytes := s'.totalTransferBytes
    actualBytesTransferred := s'.actualBytesTransferred }
  total : a.method = .put ∨ a.method = .post →
    s'.totalTransferBytes = a.inputSize.toNat ∧ s'.actualBytesTransferred = 0

theorem releaseRequest_eq (s : St) : releaseRequest s = .ok () { s with
    requestPacketPtr := none
    released := s.released ++ (s.requestPacketPtr.map Chain.ptrs).getD [] } := by
  unfold releaseRequest
  rw [bind_get_eq]
  cases hc : s.requestPacketPtr with
  | some c => rfl
  | none =>
    show EStateM.Result.ok () s = _
    rw [Option.map_none, Option.getD_none, List.append_nil, ← hc]

theorem methodText_isSome {m : HttpMethod} (h : m ≠ .none) : ∃ text, methodText m = some text := by
  cases m with
  | none => exact absurd rfl h
  | _ => exact ⟨_, rfl⟩

theorem meets_placeMethod (hP : P.Serves) (a : RequestArgs) (text : List UInt8)
    (hs : s.requestPacketPtr.isSome) :
    Meets (placeMethod P a text) s
      (fun _ s' => (∃ s1, Placed text s s1 ∧ s' = { s1 with
          totalTransferBytes := s'.totalTransferBytes
          actualBytesTransferred := s'.actualBytesTransferred }) ∧
        (a.method = .put ∨ a.method = .post →
          s'.totalTransferBytes = a.inputSize.toNat ∧ s'.actualBytesTransferred = 0))
      (fun _ _ => False) := by
  refine .seq (places_place hP text s hs) fun _ s1 h1 => ?_
  refine .ite (fun _ => .modify ⟨⟨s1, h1, rfl⟩, fun _ => ⟨rfl, rfl⟩⟩) fun hother => ?_
  exact .pure ⟨⟨s1, h1, rfl⟩, fun hbody => absurd hbody hother⟩

/-- With lengths that are accepted and a method, the packet holds the text of the request. -/
theorem meets_requestInitialize (hP : P.Serves) {maxString : Nat} {a : RequestArgs}
    (hok : a.lengthsOk maxString = true) (hmethod : a.method ≠ .none) (s : St) :
    Meets (requestInitialize P maxString a) s
      (fun status s' => status = nxSuccess ∧ Begun a s s') (fun _ _ => False) := by
  obtain ⟨text, htext⟩ := methodText_isSome hmethod
  have hshort : ∀ username password, a.username = some username → a.password = some password →
      username.length + password.length ≤ 40 := by
    intro username password husername hpassword
    simp only [RequestArgs.lengthsOk, husername, hpassword, Bool.and_eq_true, decide_eq_true_eq] at hok
    have h := hok.1.1
    simp only [nxWebHttpMaxName, nxWebHttpMaxPassword] at h
    omega
  unfold requestInitialize
  rw [if_neg (by simp [hok])]
  refine .bind (.of_ok (releaseRequest_eq s) ?_)
  let s1 : St := { s with
    requestPacketPtr := none
    released := s.released ++ (s.requestPacketPtr.map Chain.ptrs).getD [] }
  obtain ⟨ptr, hptr⟩ := hP.allocates s1.allocated
  have halloc : requestPacketAllocate P s1 = .ok ⟨⟨ptr, [], P.payload⟩, []⟩
      { s1 with allocated := s1.allocated + 1 } := by
    show EStateM.bind (nxPacketAllocate P) _ s1 = _
    rw [EStateM.bind, nxPacketAllocate_eq hptr]
    rfl
  refine .bind (.of_ok (attempt_ok halloc) (.bind_modify ?_))
  rw [htext]
  let s2 : St := { s1 with
    allocated := s1.allocated + 1
    requestPacketPtr := some ⟨⟨ptr, [], P.payload⟩, []⟩
    method := a.method }
  have hs2 : s2.requestPacketPtr.isSome := rfl
  refine .seq (meets_placeMethod (s := s2) hP a text hs2) ?_
  rintro _ s3 ⟨⟨t, ht, hs3⟩, htotal⟩
  have hsome3 : s3.requestPacketPtr.isSome := by
    rw [hs3]
    exact ht.isSome
  refine .seq (places_resource hP a.resource s3 hsome3) fun _ s4 h4 => ?_
  refine .seq (places_host hP a.host s4 h4.isSome) fun _ s5 h5 => ?_
  refine .seq (places_authorization hP hshort s5 h5.isSome) fun _ s6 h6 => ?_
  refine .seq (places_length hP a s6 h6.isSome) fun _ s7 h7 => ?_
  have hall := ((h4.trans h5).trans h6).trans h7
  obtain ⟨c3, c7, hc3, hc7, hbytes7⟩ := hall.packet
  obtain ⟨c2, c3', hc2, hc3', hbytes3⟩ := ht.packet
  have hsame : s3.requestPacketPtr = t.requestPacketPtr := by rw [hs3]
  obtain rfl : c3' = c3 := Option.some.inj (hc3'.symm.trans (hsame.symm.trans hc3))
  obtain rfl : (⟨⟨ptr, [], P.payload⟩, []⟩ : Chain) = c2 := Option.some.inj hc2
  refine .pure ⟨rfl, ⟨c7, hc7, ?_⟩, ?_, ?_⟩
  · rw [hbytes7, hbytes3, RequestArgs.text, htext, RequestArgs.fields]
    simp
  · rw [hall.only, hs3, ht.only]
  · intro hbody
    rw [hall.only]
    exact htotal hbody

theorem meets_requestHeaderAdd (hP : P.Serves) {name value : List UInt8}
    (hne : P.errorChecking = true → name ≠ [] ∧ value ≠ []) (hs : s.requestPacketPtr.isSome) :
    Meets (requestHeaderAdd P name value) s
      (fun status s' => status = nxSuccess ∧ Placed (fieldText (name, value)) s s')
      (fun _ _ => False) := by
  obtain ⟨s1, hrun1, h1⟩ := appendRequest_ok hP (fun h => (hne h).1) hs
  obtain ⟨s2, hrun2, h2⟩ := appendRequest_ok hP (fun _ => show cstr ": " ≠ [] by decide) h1.isSome
  obtain ⟨s3, hrun3, h3⟩ := appendRequest_ok hP (fun h => (hne h).2) h2.isSome
  obtain ⟨s4, hrun4, h4⟩ := appendRequest_ok hP (fun _ => show crlf ≠ [] by decide) h3.isSome
  refine .bind_get ?_
  rw [if_neg (by rw [Option.isNone_iff_eq_none]; exact Option.isSome_iff_ne_none.mp hs)]
  refine .bind (.of_ok hrun1 (.bind (.of_ok hrun2 (.bind (.of_ok hrun3 (.bind (.of_ok hrun4
    (.pure ⟨rfl, ?_⟩))))))))
  have hall := ((h1.trans h2).trans h3).trans h4
  exact hall

/-- The fields a client adds of its own. -/
def addFields (P : Pool) : List (List UInt8 × List UInt8) → M UINT
  | [] => return nxSuccess
  | f :: fields => do
    let status ← requestHeaderAdd P f.1 f.2
    if status ≠ nxSuccess then
      return status
    addFields P fields

/-- The calls for a request, as every client makes them. -/
def sendRequest (P : Pool) (maxString : Nat) (a : RequestArgs)
    (fields : List (List UInt8 × List UInt8)) : M UINT := do
  let status ← requestInitialize P maxString a
  if status ≠ nxSuccess then
    return status
  let status ← addFields P fields
  if status ≠ nxSuccess then
    return status
  requestSend P

/-- Fields that can be added: where the calls of NetX are checked, nothing empty. -/
def Pool.Adds (P : Pool) (f : List UInt8 × List UInt8) : Prop :=
  P.errorChecking = true → f.1 ≠ [] ∧ f.2 ≠ []

theorem meets_addFields (hP : P.Serves) (fields : List (List UInt8 × List UInt8))
    (hadds : ∀ f ∈ fields, P.Adds f) (hs : s.requestPacketPtr.isSome) :
    Meets (addFields P fields) s
      (fun status s' => status = nxSuccess ∧ Placed (fields.flatMap fieldText) s s')
      (fun _ _ => False) := by
  induction fields generalizing s with
  | nil =>
    obtain ⟨c, hc⟩ := Option.isSome_iff_exists.mp hs
    exact .pure ⟨rfl, rfl, c, c, hc, hc, (List.append_nil _).symm⟩
  | cons f fields ih =>
    refine .seq (meets_requestHeaderAdd hP (hadds f List.mem_cons_self) hs) ?_
    rintro status s1 ⟨rfl, h1⟩
    rw [if_neg (by decide)]
    refine (ih (fun g hg => hadds g (List.mem_cons_of_mem _ hg)) h1.isSome).mono ?_ fun _ _ => id
    rintro status s2 ⟨rfl, h2⟩
    exact ⟨rfl, h1.trans h2⟩

/-- The next packet is accepted. -/
def Accepts (s : St) : Prop := ∀ e, s.sending.head? ≠ some (.error e)

theorem send_ok (h : Accepts s) (c : Chain) :
    send c s = .ok () { s with sending := s.sending.tail, sent := s.sent ++ [c] } := by
  have hhead := h
  unfold Accepts at hhead
  unfold send
  rw [bind_get_eq]
  cases hx : s.sending.head? with
  | none => rfl
  | some x =>
    cases x with
    | error e => exact absurd hx (hhead e)
    | ok u => rfl

theorem stateOf_isSome {m : HttpMethod} (h : m ≠ .none) : ∃ state, stateOf m = some state := by
  cases m with
  | none => exact absurd rfl h
  | _ => exact ⟨_, rfl⟩

/-- The request goes out with the blank line behind it. -/
theorem meets_requestSend (hP : P.Serves) {c : Chain} (hc : s.requestPacketPtr = some c)
    (hmethod : s.method ≠ .none) (haccepts : Accepts s) :
    Meets (requestSend P) s
      (fun status s' => status = nxSuccess ∧ ∃ c', c'.bytes = c.bytes ++ crlf ∧ s' = { s with
        requestPacketPtr := none
        allocated := s'.allocated
        sending := s.sending.tail
        sent := s.sent ++ [c']
        state := (stateOf s.method).getD .ready })
      (fun _ _ => False) := by
  obtain ⟨state, hstate⟩ := stateOf_isSome hmethod
  refine .bind_get ?_
  rw [if_neg (by rw [hc]; simp)]
  refine .seq (places_place hP crlf s (by rw [hc]; rfl)) fun _ s1 h1 => ?_
  obtain ⟨c0, c', hc0, hc', hbytes⟩ := h1.packet
  obtain rfl : c = c0 := Option.some.inj (hc.symm.trans hc0)
  have honly := h1.only
  refine .bind_get ?_
  rw [hc']
  refine .bind_set ?_
  let s2 : St := { s1 with requestPacketPtr := none }
  have haccepts2 : Accepts s2 := by
    show ∀ e, s1.sending.head? ≠ _
    rw [honly]
    exact haccepts
  have hmethod1 : s1.method = s.method := by rw [honly]
  refine .bind (.of_ok (attempt_ok (send_ok haccepts2 c')) ?_)
  rw [hmethod1, hstate]
  refine .bind_modify (.pure ⟨rfl, c', hbytes, ?_⟩)
  show ({ s1 with
    requestPacketPtr := none
    sending := s1.sending.tail
    sent := s1.sent ++ [c']
    state := state } : St) = _
  rw [honly]
  rfl

/-- A request says what its arguments ask for, in one packet, and the client waits for the answer. -/
theorem meets_sendRequest (hP : P.Serves) {maxString : Nat} {a : RequestArgs}
    (hok : a.lengthsOk maxString = true) (hmethod : a.method ≠ .none)
    {fields : List (List UInt8 × List UInt8)} (hadds : ∀ f ∈ fields, P.Adds f)
    (haccepts : Accepts s) :
    Meets (sendRequest P maxString a fields) s
      (fun status s' => status = nxSuccess ∧ s'.requestPacketPtr = none ∧
        s'.released = s.released ++ (s.requestPacketPtr.map Chain.ptrs).getD [] ∧
        some s'.state = stateOf a.method ∧ s'.requestChunked = s.requestChunked ∧
        (a.method = .put ∨ a.method = .post →
          s'.totalTransferBytes = a.inputSize.toNat ∧ s'.actualBytesTransferred = 0) ∧
        ∃ c, s'.sent = s.sent ++ [c] ∧ c.bytes = a.text ++ fields.flatMap fieldText ++ crlf)
      (fun _ _ => False) := by
  obtain ⟨state, hstate⟩ := stateOf_isSome hmethod
  refine .seq (meets_requestInitialize hP hok hmethod s) ?_
  rintro status s1 ⟨rfl, hbegun⟩
  obtain ⟨c1, hc1, htext⟩ := hbegun.text
  rw [if_neg (by decide)]
  refine .seq (meets_addFields hP fields hadds (by rw [hc1]; rfl)) ?_
  rintro status s2 ⟨rfl, hplaced⟩
  obtain ⟨c1', c2, hc1', hc2, hbytes⟩ := hplaced.packet
  obtain rfl : c1 = c1' := Option.some.inj (hc1.symm.trans hc1')
  rw [if_neg (by decide)]
  have honly := hplaced.only
  have hbegan := hbegun.only
  have hmethod2 : s2.method = a.method := by rw [honly, hbegan]
  have haccepts2 : Accepts s2 := by
    show ∀ e, s2.sending.head? ≠ _
    rw [honly, hbegan]
    exact haccepts
  refine (meets_requestSend hP hc2 (by rw [hmethod2]; exact hmethod) haccepts2).mono ?_ fun _ _ => id
  rintro status s3 ⟨rfl, c3, hbytes3, hs3⟩
  refine ⟨rfl, by rw [hs3], ?_, ?_, ?_, ?_, c3, ?_, ?_⟩
  · rw [hs3, honly, hbegan]
  · rw [hs3, hmethod2, hstate]
    rfl
  · rw [hs3, honly, hbegan]
  · intro hbody
    rw [hs3, honly]
    exact hbegun.total hbody
  · rw [hs3, honly, hbegan]
  · rw [hbytes3, hbytes, htext]

/-! ## Reading a request -/

/-- A field that is read as it was written. -/
structure Readable (f : List UInt8 × List UInt8) : Prop where
  name_ne : f.1 ≠ []
  name_ok : ∀ b ∈ f.1, b ≠ 0 ∧ b ≠ 13 ∧ b ≠ 10 ∧ b ≠ 0x3A
  value_ok : ∀ b ∈ f.2, b ≠ 13 ∧ b ≠ 10
  value_head : f.2.head? ≠ some 0x20

theorem exists_fields {fields : List (List UInt8 × List UInt8)} (h : ∀ f ∈ fields, Readable f) :
    ∃ fs : List Field, fs.map (fun f => (f.name, f.value)) = fields ∧
      fs.flatMap Field.text = fields.flatMap fieldText := by
  induction fields with
  | nil => exact ⟨[], rfl, rfl⟩
  | cons f fields ih =>
    obtain ⟨fs, hmap, htext⟩ := ih fun g hg => h g (List.mem_cons_of_mem _ hg)
    obtain ⟨hne, hname, hvalue, hhead⟩ := h f List.mem_cons_self
    refine ⟨⟨f.1, f.2, hne, hname, hvalue, hhead⟩ :: fs, by rw [List.map_cons, hmap], ?_⟩
    rw [List.flatMap_cons, List.flatMap_cons, htext]
    rfl

theorem clean_char : ∀ c : UInt8, Base64.IsChar c → c ≠ 13 ∧ c ≠ 10 :=
  Hex.forall_byte (by decide +kernel)

/-- The fields of the client itself can be read, whoever the user is. -/
theorem readable_fields {a : RequestArgs} (hhost : ∀ b ∈ a.host, b ≠ 13 ∧ b ≠ 10)
    (hhead : a.host.head? ≠ some 0x20) : ∀ f ∈ a.fields, Readable f := by
  have hnames : ∀ name ∈ [cstr "Host", cstr "Authorization", cstr "Content-Length",
      cstr "Transfer-Encoding"], name ≠ [] ∧ ∀ b ∈ name, b ≠ 0 ∧ b ≠ 13 ∧ b ≠ 10 ∧ b ≠ 0x3A := by
    decide
  have hbasic : Clean (cstr "Basic ") := by decide
  have hchunked : Clean (cstr "chunked") ∧ (cstr "chunked").head? ≠ some 0x20 := by decide
  intro f hf
  simp only [RequestArgs.fields, List.mem_append, List.mem_singleton] at hf
  rcases hf with ((rfl | hf) | hf) | hf
  · obtain ⟨hne, hname⟩ := hnames (cstr "Host") (by simp)
    exact ⟨hne, hname, hhost, hhead⟩
  · split at hf
    · next username password _ _ =>
      obtain rfl := List.mem_singleton.mp hf
      obtain ⟨hne, hname⟩ := hnames (cstr "Authorization") (by simp)
      refine ⟨hne, hname, fun b hb => ?_, fun hspace => ?_⟩
      · rcases List.mem_append.mp hb with hb | hb
        · exact hbasic b hb
        · exact clean_char b (Base64.isChar_encode _ b (List.mem_of_mem_take hb))
      · cases hspace
    · cases hf
  · split at hf
    · obtain rfl := List.mem_singleton.mp hf
      obtain ⟨hne, hname⟩ := hnames (cstr "Content-Length") (by simp)
      have hnumeral := Decimal.numeral_ofNat a.inputSize.toNat
      refine ⟨hne, hname, fun b hb => ?_, fun hspace => ?_⟩
      · have hclean := clean_digit b (hnumeral.digits b hb)
        exact ⟨hclean.1, hclean.2.1⟩
      · have hmem := List.mem_of_mem_head? hspace
        exact (clean_digit _ (hnumeral.digits _ hmem)).2.2 rfl
    · cases hf
  · split at hf
    · obtain rfl := List.mem_singleton.mp hf
      obtain ⟨hne, hname⟩ := hnames (cstr "Transfer-Encoding") (by simp)
      exact ⟨hne, hname, hchunked.1, hchunked.2⟩
    · cases hf

/-- What a reader of the request finds: the first line, and behind it just the fields that were
asked for, up to the end of the text. -/
theorem request_read {a : RequestArgs} {fields : List (List UInt8 × List UInt8)}
    (htarget : Clean (targetText a.resource)) (hhost : Clean a.host)
    (hhead : a.host.head? ≠ some 0x20) (hfields : ∀ f ∈ fields, Readable f) (s : St) :
    ∃ rest, takeLine (a.text ++ fields.flatMap fieldText ++ crlf) =
        ((methodText a.method).getD [] ++ targetText a.resource ++ cstr " HTTP/1.1", crlf ++ rest) ∧
      ∃ s', fieldLoop (rest.length + 1) rest 0 s = .ok rest.length s' ∧
        s'.reported = if s.responseCallback then s.reported ++ (a.fields ++ fields) else s.reported := by
  have hall : ∀ f ∈ a.fields ++ fields, Readable f := by
    intro f hf
    rcases List.mem_append.mp hf with hf | hf
    · exact readable_fields hhost hhead f hf
    · exact hfields f hf
  obtain ⟨fs, hmap, htext⟩ := exists_fields hall
  have hline : Clean ((methodText a.method).getD [] ++ targetText a.resource ++ cstr " HTTP/1.1") := by
    have hmethod : Clean ((methodText a.method).getD []) := by
      cases a.method <;> decide
    have hversion : Clean (cstr " HTTP/1.1") := by decide
    intro b hb
    simp only [List.mem_append] at hb
    rcases hb with (hb | hb) | hb
    · exact hmethod b hb
    · exact htarget b hb
    · exact hversion b hb
  refine ⟨fs.flatMap Field.text ++ crlf, ?_, ?_⟩
  · rw [← takeLine_clean hline, htext, RequestArgs.text, List.flatMap_append]
    simp
  · have hcount := Field.length_le fs
    have hrun := fieldLoop_fields fs (show fs.length < (fs.flatMap Field.text ++ crlf).length + 1 by
      rw [List.length_append]; omega) 0 [] s
    have hlen : 0 + (fs.flatMap Field.text).length + 2 = (fs.flatMap Field.text ++ crlf).length := by
      rw [List.length_append, Nat.zero_add]
      rfl
    rw [List.append_nil, hlen] at hrun
    refine ⟨processFields fs s, hrun, ?_⟩
    rw [processFields_eq, hmap]

/-- A request for `/fw` with a range. -/
def rangeRequest : RequestArgs := { method := .get, resource := cstr "/fw", host := cstr "h" }

end Iotc.Http
