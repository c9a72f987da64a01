import WebhookEngine.Model.Receiver
import WebhookEngine.Proof.Derived

set_option autoImplicit false

/-!
# Signatures

The processor signs `timestamp.body` and sends both; the receiver rebuilds the text from the header and
the bytes.

* `HexDigest`, `Collisionless`: what is assumed of HMAC-SHA256.
* `outbound_accepted`: the request of a row is valid for the receiver with the same secret.
* `verify_sign_iff`: a signature is valid for its timestamp and its body only.
* **`signatures_bind`**: every request of every processor is accepted, and timestamps below `10 ^ 21`
  are bound.
-/

namespace WebhookEngine

open EffectProg TransitionSystem Encodings

variable {env : Env}

/-- The digest is that of 32 bytes, in hexadecimal digits. -/
def HexDigest (env : Env) : Prop :=
  ∀ secret text, ∃ bytes : List UInt8, bytes.length = 32 ∧ env.hmacSha256Hex secret text = hexEncode bytes

/-- With one secret no two of the signed texts have the same digest. -/
def Collisionless (env : Env) (signed : Set String) : Prop :=
  ∀ secret, Set.InjOn (env.hmacSha256Hex secret) signed

/-! ## One signature -/

theorem show_ofNat {n : ℕ} (h : n < 2 ^ 53) :
    (JsNumber.integer (.ofNat n h)).show = toString n := by
  change showInt (.ofNat n h) = toString n
  rw [showInt, if_neg (by simp [IntNumber.ofNat])]
  exact showNat_of_lt h

theorem sign_eq {secret : String} {n : ℕ} (h : n < 2 ^ 53) (body : String) :
    sign env secret n body = signNumber env secret (.integer (.ofNat n h)) body := by
  rw [sign, signNumber, signedPayload, show_ofNat]

theorem verify_iff (hhex : HexDigest env) {secret body body' : String} {x y : JsNumber} :
    verify env secret x body (signNumber env secret y body') = true ↔
      signNumber env secret x body = signNumber env secret y body' := by
  obtain ⟨bytes, -, hbytes⟩ := hhex secret (signedPayload x body)
  obtain ⟨bytes', -, hbytes'⟩ := hhex secret (signedPayload y body')
  have hx : signNumber env secret x body = hexEncode bytes := hbytes
  have hy : signNumber env secret y body' = hexEncode bytes' := hbytes'
  rw [verify, hx, hy, hexDecode_hexEncode, hexDecode_hexEncode, hexEncode_injective.eq_iff]
  split
  · rename_i hlen
    exact ⟨(fun h => by cases h), fun h => absurd (congrArg List.length h) hlen⟩
  · exact decide_eq_true_iff

/-- **A signature binds its timestamp and its body.** -/
theorem verify_sign_iff (hhex : HexDigest env) {signed : Set String} (hinj : Collisionless env signed)
    {secret body body' : String} {m n : IntNumber} (hm : m.Plain) (hn : n.Plain)
    (hsigned : signedPayload (.integer m) body ∈ signed)
    (hsigned' : signedPayload (.integer n) body' ∈ signed) :
    verify env secret (.integer m) body (signNumber env secret (.integer n) body') = true ↔
      m = n ∧ body = body' := by
  rw [verify_iff hhex]
  constructor
  · intro h
    have htext : showInt m ++ "." ++ body = showInt n ++ "." ++ body' :=
      hinj secret hsigned hsigned' h
    obtain ⟨hshow, hbody⟩ := append_separator_inj (c := '.') (by decide)
      (point_notMem_showInt hm) (point_notMem_showInt hn) htext
    exact ⟨showInt_injective hm hn hshow, hbody⟩
  · rintro ⟨rfl, rfl⟩
    rfl

/-! ## From the processor to the receiver -/

theorem toString_ne_empty (n : ℕ) : toString n ≠ "" := by
  intro hempty
  have hlist := toList_toString n
  rw [hempty] at hlist
  exact Nat.toDigits_ne_nil hlist.symm

theorem IdText.spell_ne_empty (x : IdText) : x.spell ≠ "" := by
  intro hempty
  have hlist := congrArg String.toList hempty
  rw [IdText.spell, String.toList_append] at hlist
  exact toString_ne_empty x.id (String.toList_eq_nil_iff.mp (List.append_eq_nil_iff.mp hlist).2)

theorem number_toString (rt : Receiver) {n : ℕ} (h : n < 2 ^ 53) :
    rt.number (toString n) = .integer (.ofNat n h) := by
  have hlist : (toString n).toList = Nat.toDigits 10 n := toList_toString n
  have hdigits : (toString n).toList.all Char.isDigit = true := by
    rw [hlist, List.all_eq_true]
    exact fun c hc => Nat.isDigit_of_mem_toDigits (by decide) (by decide) hc
  have hvalue : Nat.ofDigitChars 10 (toString n).toList 0 = n := by
    rw [hlist, Nat.ofDigitChars_ten_toDigits]
  simp only [Receiver.number, hvalue]
  rw [dif_pos ⟨⟨toString_ne_empty n, hdigits⟩, h⟩]

theorem utf8_toUTF8 (rt : Receiver) (text : String) : rt.utf8 text.toUTF8 = text := by
  have hvalid : String.fromUTF8? text.toUTF8 = some text := dif_pos text.isValidUTF8
  rw [Receiver.utf8, hvalid]

theorem strip_prefix (hex : String) :
    String.ofList (("sha256=" ++ hex).toList.drop "sha256=".length) = hex := by
  rw [String.toList_append, List.drop_left' (by rfl), String.ofList_toList]

theorem truthy_some {text : String} (h : text ≠ "") : Receiver.truthy (some text) = some text := by
  simp [Receiver.truthy, h]

/-- **The request of a row is accepted** by the receiver with the secret of the row. -/
theorem outbound_accepted (hhex : HexDigest env) (job : JobRef) (r : DeliveryForWorker) (nowMs : Time)
    (hts : nowMs / 1000 < 2 ^ 53) (rt : Receiver) (hsecret : rt.signingSecret = r.signingSecret)
    (path : String) (now : Time) :
    (rt.logRequest env ((outbound env job r nowMs).arriving path) now).validSignature = true := by
  have hbody : rt.utf8 ((outbound env job r nowMs).arriving path).body = outboundBody env r :=
    utf8_toUTF8 rt _
  obtain ⟨bytes, hlen, hbytes⟩ :=
    hhex r.signingSecret (toString (nowMs / 1000) ++ "." ++ outboundBody env r)
  have hsig : sign env r.signingSecret (nowMs / 1000) (outboundBody env r) = hexEncode bytes := hbytes
  have hne : hexEncode bytes ≠ "" := by
    intro hempty
    have hnil : bytes = [] := by
      rw [← hexDecode_hexEncode bytes, hempty]
      rfl
    rw [hnil] at hlen
    cases hlen
  have hid : ((outbound env job r nowMs).arriving path).header "x-webhook-id" =
      some job.text.spell := by
    simp [Incoming.header, HttpRequest.arriving, outbound, buildWebhookHeaders]
  have htsHeader : ((outbound env job r nowMs).arriving path).header "x-webhook-timestamp" =
      some (toString (nowMs / 1000)) := by
    simp [Incoming.header, HttpRequest.arriving, outbound, buildWebhookHeaders]
  have hsigHeader : ((outbound env job r nowMs).arriving path).header "x-webhook-signature" =
      some ("sha256=" ++ hexEncode bytes) := by
    simp [Incoming.header, HttpRequest.arriving, outbound, buildWebhookHeaders, hsig]
  have hprefix : "sha256=".toList.isPrefixOf ("sha256=" ++ hexEncode bytes).toList = true := by
    rw [String.toList_append]
    exact List.isPrefixOf_iff_prefix.mpr (List.prefix_append _ _)
  simp only [Receiver.logRequest, hid, htsHeader, hsigHeader, Option.getD_some, hprefix, if_true,
    strip_prefix, truthy_some job.text.spell_ne_empty, truthy_some (toString_ne_empty _),
    truthy_some hne, hbody, hsecret, number_toString rt hts]
  rw [← hsig, sign_eq hts, verify_iff hhex]

/-- **Signatures are accepted and bind**: every request a processor sends is the one of the row it has
read; such a request is valid for the receiver with the secret of the row if its timestamp is below
`2 ^ 53`; and among timestamps below `10 ^ 21` a signature is valid for its own and its body only. -/
theorem signatures_bind (hhex : HexDigest env) (signed : Set String)
    (hinj : Collisionless env signed) :
    (∀ (C : State → Label → Prop) (s : State) (t : Tid) (th : Thread) (job : JobRef)
      (req : HttpRequest) (k : Unit → Code Reply), Reachable env C s → s.live? t = some th →
        th.kind = .deliver job → th.prog = .op (.httpStart req) k →
          ∃ r nowMs, th.facts.row = some r ∧ req = outbound env job r nowMs) ∧
    (∀ (job : JobRef) (r : DeliveryForWorker) (nowMs : Time) (rt : Receiver) (path : String)
      (now : Time), nowMs / 1000 < 2 ^ 53 → rt.signingSecret = r.signingSecret →
        (rt.logRequest env ((outbound env job r nowMs).arriving path) now).validSignature = true) ∧
    ∀ (secret : String) (m n : IntNumber) (body body' : String), m.Plain → n.Plain →
      signedPayload (.integer m) body ∈ signed → signedPayload (.integer n) body' ∈ signed →
        (verify env secret (.integer m) body (signNumber env secret (.integer n) body') = true ↔
          m = n ∧ body = body') := by
  refine ⟨fun C s t th job req k h ht hk hp => request_sent h ht hk hp, ?_, ?_⟩
  · exact fun job r nowMs rt path now hts hsecret =>
      outbound_accepted hhex job r nowMs hts rt hsecret path now
  · exact fun secret m n body body' hm hn hsigned hsigned' =>
      verify_sign_iff hhex hinj hm hn hsigned hsigned'

/-- The outbound body of the sample event. -/
def sampleBody : String :=
  "\x7b\"event_id\":\"1\",\"event_type\":\"order.paid\"," ++
    "\"created_at\":\"2023-11-14T22:13:20.000Z\",\"data\":\x7b\"note\":\"é😀\"\x7d\x7d"

/-- The digests of three texts under the secret of the test receiver. -/
def sampleHmac (_secret text : String) : String :=
  if text = "1700000000." ++ sampleBody then
    "41cbe1a2ad1d9d023c7b62f9ebeb47e39c48ad7cf45568f6b3df9d6c9363a1a9"
  else if text = "1700000001." ++ sampleBody then
    "16646cabd72ff34f15bfb74800b72015d1b8dd16659e78a60374f4d27c4034d7"
  else "5fb8d245e6a2d4283e8410583cb2d1b99ada7f7368a9c2a791e214c4c6c69765"

def signingEnv : Env := ⟨Config.default, sampleHmac, fun _ => sampleBody,
  fun _ => "2023-11-14T22:13:20.000Z"⟩

theorem signingEnv_hexDigest : HexDigest signingEnv := by
  intro secret text
  change ∃ bytes : List UInt8, bytes.length = 32 ∧ sampleHmac secret text = hexEncode bytes
  unfold sampleHmac
  split
  · exact ⟨hexDecode "41cbe1a2ad1d9d023c7b62f9ebeb47e39c48ad7cf45568f6b3df9d6c9363a1a9",
      by decide +kernel⟩
  · split
    · exact ⟨hexDecode "16646cabd72ff34f15bfb74800b72015d1b8dd16659e78a60374f4d27c4034d7",
        by decide +kernel⟩
    · exact ⟨hexDecode "5fb8d245e6a2d4283e8410583cb2d1b99ada7f7368a9c2a791e214c4c6c69765",
        by decide +kernel⟩

/-- The test receiver; what it makes of other texts does not matter here. -/
def testReceiver : Receiver :=
  ⟨"whsec_test_receiver_secret", Unit, fun _ => none, .other, fun _ => "", fun _ => ""⟩

/-- The row of the sample event. -/
def signingRow : DeliveryForWorker :=
  ⟨2, .pending, 0, 0, "http://localhost:4000/ok", "whsec_test_receiver_secret", true, 1, "order.paid",
    "\x7b\"note\":\"é😀\"\x7d", 1700000000000⟩

theorem sampleHmac_collisionless :
    Collisionless signingEnv {"1700000000." ++ sampleBody, "1700000001." ++ sampleBody} := by
  intro secret
  have hsame : ∀ text, signingEnv.hmacSha256Hex secret text = sampleHmac "" text := fun _ => rfl
  rw [Set.injOn_pair, hsame, hsame]
  exact fun h => absurd h (by decide +kernel)

theorem signatures_bind_sample :
    (testReceiver.logRequest signingEnv
      ((outbound signingEnv ⟨.delivery 2, 2, 0⟩ signingRow 1700000000123).arriving "/ok")
        1700000000200).validSignature = true ∧
    verify signingEnv "whsec_test_receiver_secret"
      (.integer (.ofNat 1700000001 (by decide))) sampleBody
        (signNumber signingEnv "whsec_test_receiver_secret" (.integer (.ofNat 1700000000 (by decide)))
          sampleBody) = false := by
  have h := signatures_bind signingEnv_hexDigest _ sampleHmac_collisionless
  refine ⟨h.2.1 _ _ _ _ _ _ (by decide) rfl, ?_⟩
  have hiff := h.2.2 "whsec_test_receiver_secret" (.ofNat 1700000001 (by decide))
    (.ofNat 1700000000 (by decide)) sampleBody sampleBody
    (by unfold IntNumber.Plain; decide) (by unfold IntNumber.Plain; decide)
    (Or.inr (by rw [signedPayload, show_ofNat]; rfl)) (Or.inl (by rw [signedPayload, show_ofNat]; rfl))
  rw [Bool.eq_false_iff, Ne, hiff]
  rintro ⟨heq, -⟩
  exact absurd (congrArg IntNumber.val heq) (by decide)

/-- The timestamp of the other reading of `1.5e+21.x`. -/
def farTimestamp : IntNumber := ⟨15 * 10 ^ 20, by decide +kernel, by decide +kernel⟩

/-- The timestamps 1 and `1.5 * 10 ^ 21` have bodies that make the same signed text. -/
theorem signature_shared : ¬ ∀ (env : Env) (signed : Set String), HexDigest env →
    Collisionless env signed → ∀ (secret : String) (m n : IntNumber) (body body' : String),
      signedPayload (.integer m) body ∈ signed → signedPayload (.integer n) body' ∈ signed →
        (verify env secret (.integer m) body (signNumber env secret (.integer n) body') = true ↔
          m = n ∧ body = body') := by
  intro h
  have hfar : signedPayload (.integer farTimestamp) "x" = "1.5e+21.x" := by decide +kernel
  have hnear : signedPayload (.integer (.ofNat 1 (by decide))) "5e+21.x" = "1.5e+21.x" := by
    decide +kernel
  have hiff := h signingEnv {"1.5e+21.x"} signingEnv_hexDigest (fun _ => Set.injOn_singleton _ _)
    "whsec_test_receiver_secret" farTimestamp (.ofNat 1 (by decide)) "x" "5e+21.x" hfar hnear
  have hvalid := (verify_iff signingEnv_hexDigest).mpr
    (congrArg (signingEnv.hmacSha256Hex "whsec_test_receiver_secret") (hfar.trans hnear.symm))
  exact absurd (congrArg IntNumber.val (hiff.mp hvalid).1) (by decide)

end WebhookEngine
