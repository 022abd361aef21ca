import Lecrev.Http.Handlers

/-!
# Request bodies in payloads

`buildHTTPPayloadForPath` and `buildWebhookPayload` read a body through a reader that stops after
`maxBodyBytes`. The reader does not report that it stopped, so what is behind the limit is dropped,
and the rest is taken for the body.
-/

namespace Lecrev.Http

/-- What the documentation of Go says about the functions of the codec. -/
structure Codec.Documented (c : Codec) : Prop where
  base64Encode_nil : c.base64Encode [] = ""
  base64Decode_base64Encode : ∀ bytes, c.base64Decode (c.base64Encode bytes) = .ok bytes
  /-- A JSON text is not blank. -/
  trimSpace_text_ne : ∀ bytes value, c.parse bytes = some value → trimSpace (c.text bytes) ≠ ""

/-- The field `bodyBase64` of the payload of a function URL decodes to the body. -/
def CarriesBody (c : Codec) (body : Bytes) (payload : Json) : Prop :=
  ∃ text, (payload.field? "request").bind (·.field? "bodyBase64") = some (.str text) ∧
    c.base64Decode text = .ok body

/-- The body of the payload of a webhook is the value of the body, if the body is valid JSON. -/
def CarriesValue (c : Codec) (body : Bytes) (payload : Json) : Prop :=
  ∀ value, c.parse body = some value → payload.field? "body" = some value

/-- `buildWebhookPayload` reads the bytes as the value: the value of a JSON text, null for a blank
text, and any other text as a string. -/
def ReadAs (c : Codec) (bytes : Bytes) (value : Json) : Prop :=
  c.parse bytes = some value ∨ (trimSpace (c.text bytes) = "" ∧ value = .null) ∨
    (trimSpace (c.text bytes) ≠ "" ∧ c.parse bytes = none ∧ value = .str (trimSpace (c.text bytes)))

section Payload

variable {c : Codec} {r : Request} {body : Bytes}

theorem lookup_decodeHTTPPayloadBody (hc : c.Documented) {fields : List (String × Json)}
    (h : decodeHTTPPayloadBody c body = .ok fields) :
    fields.lookup "bodyBase64" = some (.str (c.base64Encode body)) := by
  unfold decodeHTTPPayloadBody at h
  dsimp only at h
  split_ifs at h with hnil hvalid
  · cases h
    rw [hnil, hc.base64Encode_nil]
    rfl
  · cases hdecoded : c.unmarshal body with
    | none =>
      rw [hdecoded] at h
      cases h
    | some payload =>
      rw [hdecoded] at h
      cases h
      rfl
  · cases h
    rfl

theorem bodyBase64_httpPayload (hc : c.Documented) (hbody : r.body = .ok body)
    {token functionPath : String} {payload : Json}
    (h : httpPayload c r token functionPath = .ok payload) :
    (payload.field? "request").bind (·.field? "bodyBase64") =
      some (.str (c.base64Encode (body.take maxBodyBytes))) := by
  unfold httpPayload at h
  rw [hbody] at h
  obtain ⟨_, ⟨⟩, h⟩ := Except.bind_eq_ok_iff.mp h
  obtain ⟨fields, hfields, h⟩ := Except.bind_eq_ok_iff.mp h
  cases h
  change fields.lookup "bodyBase64" = _
  exact lookup_decodeHTTPPayloadBody hc hfields

theorem carriesBody_iff (hc : c.Documented) (hbody : r.body = .ok body)
    {token functionPath : String} {payload : Json}
    (h : httpPayload c r token functionPath = .ok payload) :
    CarriesBody c body payload ↔ body.length ≤ maxBodyBytes := by
  have hfield := bodyBase64_httpPayload hc hbody h
  constructor
  · rintro ⟨text, htext, hdecode⟩
    obtain rfl := Json.str.inj (Option.some.inj (hfield.symm.trans htext))
    rw [hc.base64Decode_base64Encode] at hdecode
    have hread := congrArg List.length (Except.ok.inj hdecode)
    rw [List.length_take] at hread
    exact min_eq_right_iff.mp hread
  · intro hlength
    rw [List.take_of_length_le hlength] at hfield
    exact ⟨_, hfield, hc.base64Decode_base64Encode body⟩

theorem carriesValue_iff (hc : c.Documented) (hbody : r.body = .ok body) {payload : Json}
    (h : webhookPayload c r = .ok payload) :
    CarriesValue c body payload ↔
      ∀ value, c.parse body = some value → ReadAs c (body.take maxBodyBytes) value := by
  unfold webhookPayload at h
  rw [hbody] at h
  cases h
  refine forall₂_congr fun value _ => Option.some_inj.trans ?_
  unfold ReadAs
  generalize body.take maxBodyBytes = bytes
  by_cases hblank : trimSpace (c.text bytes) = ""
  · -- a blank text has no value
    have hnone : c.parse bytes ≠ some value := fun h => hc.trimSpace_text_ne bytes value h hblank
    simp [hblank, hnone, eq_comm]
  · cases hparse : c.parse bytes <;> simp [hblank, eq_comm]

end Payload

/-- **Bodies.** A body that cannot be read is refused. Every payload of a function URL is the
encoding of a map whose `bodyBase64` decodes to the body exactly when the body is within the limit.
The payload of a webhook carries the value of a body exactly when the part of the body within the
limit is read as that value. -/
theorem body_unaltered_iff (c : Codec) (hc : c.Documented) (r : Request) :
    (∀ e, r.body = .error e →
      (∀ token functionPath, buildHTTPPayloadForPath c r token functionPath = .error e) ∧
        buildWebhookPayload c r = .error e) ∧
    ∀ body, r.body = .ok body →
      (∀ token functionPath bytes, buildHTTPPayloadForPath c r token functionPath = .ok bytes →
        ∃ payload, httpPayload c r token functionPath = .ok payload ∧ bytes = c.marshal payload ∧
          (CarriesBody c body payload ↔ body.length ≤ maxBodyBytes)) ∧
      (∀ bytes, buildWebhookPayload c r = .ok bytes →
        ∃ payload, webhookPayload c r = .ok payload ∧ bytes = c.marshal payload ∧
          (body.length ≤ maxBodyBytes → CarriesValue c body payload) ∧
          (CarriesValue c body payload ↔
            ∀ value, c.parse body = some value → ReadAs c (body.take maxBodyBytes) value)) := by
  refine ⟨fun e he => ⟨fun token functionPath => ?_, ?_⟩, fun body hbody => ⟨?_, ?_⟩⟩
  · rw [buildHTTPPayloadForPath, httpPayload, he]
    rfl
  · rw [buildWebhookPayload, webhookPayload, he]
    rfl
  · intro token functionPath bytes h
    rw [buildHTTPPayloadForPath] at h
    cases hpayload : httpPayload c r token functionPath with
    | error e =>
      rw [hpayload] at h
      cases h
    | ok payload =>
      rw [hpayload] at h
      cases h
      exact ⟨payload, rfl, rfl, carriesBody_iff hc hbody hpayload⟩
  · intro bytes h
    rw [buildWebhookPayload] at h
    cases hpayload : webhookPayload c r with
    | error e =>
      rw [hpayload] at h
      cases h
    | ok payload =>
      rw [hpayload] at h
      cases h
      have hiff := carriesValue_iff hc hbody hpayload
      refine ⟨payload, rfl, rfl, fun hlength => hiff.mpr fun value hvalue => .inl ?_, hiff⟩
      rw [List.take_of_length_le hlength, hvalue]

namespace BodySample

/-- A codec that is right about the body `1`. -/
def codec : Codec where
  marshal _ := []
  unmarshal bytes := if bytes = [0x31] then some (.num 1) else none
  unmarshalError _ := ""
  parse bytes := if bytes = [0x31] then some (.num 1) else none
  sprint _ := ""
  text bytes := .ofList (bytes.map fun b => Char.ofNat b.toNat)
  base64Encode bytes :=
    if bytes = [] then ""
    else if bytes = [0x31] then "MQ=="
    else .ofList ('!' :: bytes.map fun b => Char.ofNat b.toNat)
  base64Decode text :=
    match text.toList with
    | [] => .ok []
    | '!' :: chars => .ok (chars.map fun c => UInt8.ofNat c.toNat)
    | _ => .ok [0x31]

theorem documented : codec.Documented where
  base64Encode_nil := rfl
  base64Decode_base64Encode bytes := by
    have hbyte (b : UInt8) : UInt8.ofNat (Char.ofNat b.toNat).toNat = b := by
      have hvalid : b.toNat.isValidChar := .inl (b.toNat_lt.trans (by decide))
      rw [Char.ofNat, dif_pos hvalid]
      change UInt8.ofNat b.toNat = b
      exact UInt8.ofNat_toNat
    dsimp only [codec]
    split_ifs with hnil hone
    · rw [hnil]
      rfl
    · rw [hone]
      rfl
    · rw [String.toList_ofList]
      change Except.ok ((bytes.map fun b => Char.ofNat b.toNat).map _) = _
      rw [List.map_map]
      exact congrArg _ ((List.map_congr_left fun b _ => hbyte b).trans (List.map_id _))
  trimSpace_text_ne bytes value h := by
    change (if bytes = [0x31] then _ else _) = some value at h
    split_ifs at h with hbytes
    rw [hbytes]
    decide +kernel

def request (body : Bytes) : Request :=
  { method := "POST", path := "/", requestURI := "/", body := .ok body }

theorem exists_httpPayload (body : Bytes) :
    ∃ payload, httpPayload codec (request body) "t" "/" = .ok payload := by
  obtain ⟨fields, hfields⟩ : ∃ fields,
      decodeHTTPPayloadBody codec (body.take maxBodyBytes) = .ok fields := by
    unfold decodeHTTPPayloadBody
    dsimp only
    split_ifs with hnil hvalid
    · exact ⟨_, rfl⟩
    · -- what is valid can be decoded
      obtain ⟨value, hvalue⟩ := Option.isSome_iff_exists.mp hvalid
      have hdecoded : codec.unmarshal (body.take maxBodyBytes) = some value := hvalue
      rw [hdecoded]
      exact ⟨_, rfl⟩
    · exact ⟨_, rfl⟩
  rw [httpPayload]
  dsimp only [request, bind, Except.bind]
  rw [hfields]
  exact ⟨_, rfl⟩

end BodySample

open BodySample in
theorem body_unaltered_iff_sample :
    ∃ payload, httpPayload codec (request [0x31]) "t" "/" = .ok payload ∧
      CarriesBody codec [0x31] payload := by
  obtain ⟨payload, hpayload, -, hcarries⟩ :=
    ((body_unaltered_iff codec documented (request [0x31])).2 [0x31] rfl).1 "t" "/" [] rfl
  exact ⟨payload, hpayload, hcarries.mpr (by decide)⟩

open BodySample in
/-- A body of one byte more than the limit is cut off, and the request is not refused. -/
theorem not_body_unaltered :
    ¬ ∀ (c : Codec), c.Documented → ∀ (r : Request) (body : Bytes), r.body = .ok body →
      ∀ token functionPath payload, httpPayload c r token functionPath = .ok payload →
        CarriesBody c body payload := by
  intro h
  have hlength : (List.replicate (maxBodyBytes + 1) (0 : UInt8)).length = maxBodyBytes + 1 :=
    List.length_replicate
  obtain ⟨payload, hpayload⟩ := exists_httpPayload (List.replicate (maxBodyBytes + 1) 0)
  have hcarries := h codec documented (request (List.replicate (maxBodyBytes + 1) 0)) _ rfl "t" "/"
    payload hpayload
  have hle := (carriesBody_iff documented rfl hpayload).mp hcarries
  rw [hlength] at hle
  exact absurd hle (Nat.not_succ_le_self _)

end Lecrev.Http
