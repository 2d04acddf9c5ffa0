import Bobbit.Server.Cookie

/-!
# Session cookies are exact

What is accepted is the wire form of its fields, character for character; what is minted is
accepted from its issue, less the skew, up to its expiry; and the fields before the times tell the
kinds and the sessions apart. The digest enters only as a function with 32 bytes for a value.

## Key results
- `decodeFields_sound`, `decodeFields_wireForm`: a value is decoded iff it is a wire form.
- `mintKind_eq_ok_iff`: what is minted, and when.
- `cookies_exact`: the three properties, for session and preview cookies.
- `visits_let_in`: regular requests keep a browser signed in.
-/

namespace Bobbit.Server.Cookie

open Lib JsString

/-! ## Fields and dots -/

theorem joinFields_concat {fields : List JsString} (h : fields ≠ []) (last : JsString) :
    joinFields (fields ++ [last]) = joinFields fields ++ fieldDot :: last := by
  induction fields with
  | nil => exact absurd rfl h
  | cons field rest ih =>
    cases rest with
    | nil => simp [joinFields]
    | cons next rest =>
      have hrest := ih (List.cons_ne_nil _ _)
      rw [joinFields, joinFields] at hrest
      rw [joinFields, joinFields, List.cons_append, List.cons_append,
        List.intercalate_cons_cons, ← List.cons_append, hrest, List.intercalate_cons_cons]
      simp only [List.append_assoc]

theorem fieldDot_not_mem_numberText (n : Nat) : fieldDot ∉ numberText n := by
  intro h
  have hlow := (digit_of_mem_numberText h).1
  have hdot : fieldDot.toNat = 0x2E := rfl
  omega

theorem fieldDot_not_mem_encode (bytes : List UInt8) : fieldDot ∉ Base64Url.encode bytes := by
  intro h
  have hmem := Base64Url.mem_alphabet_of_mem_encode h
  have hnot : fieldDot ∉ Base64Url.alphabet := by decide +kernel
  exact hnot hmem

/-! ## Canonical fields -/

theorem canonicalUint_eq_some_iff {raw : JsString} {n : Nat} :
    canonicalUint raw = some n ↔ raw = numberText n ∧ n ≤ maxSafeInteger := by
  rw [canonicalUint]
  constructor
  · intro h
    split at h
    · cases h
    · dsimp only at h
      split at h
      · cases h
      · rename_i hcanonical
        cases h
        push Not at hcanonical
        exact ⟨hcanonical.2.symm, hcanonical.1⟩
  · rintro ⟨rfl, hle⟩
    rw [isDecimal_numberText, decimalValue_numberText]
    simp [Nat.not_lt.mpr hle]

theorem encode_ne_nil {bytes : List UInt8} (h : 0 < bytes.length) :
    Base64Url.encode bytes ≠ [] := by
  intro hnil
  have hlength := Base64Url.length_encode bytes
  rw [hnil, List.length_nil] at hlength
  omega

theorem canonicalBase64Url_eq_some_iff {raw : JsString} {size : Nat} {bytes : List UInt8}
    (hsize : 0 < size) :
    canonicalBase64Url raw size = some bytes ↔
      raw = Base64Url.encode bytes ∧ bytes.length = size := by
  rw [canonicalBase64Url]
  constructor
  · intro h
    split at h
    · cases h
    · dsimp only at h
      split at h
      · cases h
      · rename_i hcanonical
        cases h
        push Not at hcanonical
        exact ⟨hcanonical.2.symm, hcanonical.1⟩
  · rintro ⟨rfl, hlength⟩
    have hne : (Base64Url.encode bytes).isEmpty = false := by
      rw [List.isEmpty_eq_false_iff]
      exact encode_ne_nil (by omega)
    have hall : (Base64Url.encode bytes).all (· ∈ Base64Url.alphabet) = true := by
      rw [List.all_eq_true]
      exact fun u hu => decide_eq_true (Base64Url.mem_alphabet_of_mem_encode hu)
    rw [hne, hall, Base64Url.decode_encode]
    simp [hlength]

/-! ## Wire forms -/

/-- The text that the digest covers. -/
def signedText (head : List JsString) (issuedAt expiresAt : Nat) (nonce : List UInt8) : JsString :=
  joinFields (head ++ [numberText issuedAt, numberText expiresAt, Base64Url.encode nonce])

def wireForm (c : Credential) : JsString :=
  joinFields (c.head ++ [numberText c.issuedAt, numberText c.expiresAt, Base64Url.encode c.nonce,
    Base64Url.encode c.tag])

theorem wireForm_eq (c : Credential) :
    wireForm c =
      joinFields [signedText c.head c.issuedAt c.expiresAt c.nonce, Base64Url.encode c.tag] := by
  have hsplit : c.head ++ [numberText c.issuedAt, numberText c.expiresAt,
      Base64Url.encode c.nonce, Base64Url.encode c.tag] =
      (c.head ++ [numberText c.issuedAt, numberText c.expiresAt, Base64Url.encode c.nonce]) ++
        [Base64Url.encode c.tag] := by simp
  rw [wireForm, hsplit, joinFields_concat (by simp), signedText]
  simp [joinFields]

structure Credential.InRange (c : Credential) : Prop where
  issuedAt : c.issuedAt ≤ maxSafeInteger
  expiresAt : c.expiresAt ≤ maxSafeInteger
  nonce : c.nonce.length = nonceBytes
  tag : c.tag.length = signingKeyBytes
  payload : c.payload = signedText c.head c.issuedAt c.expiresAt c.nonce

/-- What a value is decoded to: its fields, and it is their wire form. -/
theorem decodeFields_sound {kind : Kind} {value : JsString} {c : Credential}
    (h : decodeFields kind value = some c) :
    value = wireForm c ∧ c.head = kind.head ∧ c.InRange := by
  rw [decodeFields] at h
  split at h
  · cases h
  · dsimp only at h
    split at h
    · cases h
    · rename_i hhead
      split at h
      · rename_i rawIssuedAt rawExpiresAt rawNonce rawSignature hdrop
        simp only [Option.bind_eq_bind, Option.bind_eq_some_iff] at h
        obtain ⟨issuedAt, hissued, expiresAt, hexpires, nonce, hnonce, tag, htag, hc⟩ := h
        obtain ⟨rfl, hissuedLe⟩ := canonicalUint_eq_some_iff.mp hissued
        obtain ⟨rfl, hexpiresLe⟩ := canonicalUint_eq_some_iff.mp hexpires
        obtain ⟨rfl, hnonceLength⟩ :=
          (canonicalBase64Url_eq_some_iff (by decide)).mp hnonce
        obtain ⟨rfl, htagLength⟩ := (canonicalBase64Url_eq_some_iff (by decide)).mp htag
        cases hc
        -- the parts are the head and four fields, and the value is the parts joined again
        have hparts := List.take_append_drop kind.head.length (value.splitOn fieldDot)
        rw [Decidable.not_not.mp hhead, hdrop] at hparts
        refine ⟨?_, rfl, hissuedLe, hexpiresLe, hnonceLength, htagLength, rfl⟩
        rw [wireForm, hparts, joinFields, List.intercalate_splitOn]
      · cases h

/-- The fields of a decoded value: the head and four more. -/
theorem parts_of_decodeFields {kind : Kind} {value : JsString} {c : Credential}
    (h : decodeFields kind value = some c) :
    ∃ rest, value.splitOn fieldDot = kind.head ++ rest ∧ rest.length = 4 := by
  rw [decodeFields] at h
  split at h
  · cases h
  · dsimp only at h
    split at h
    · cases h
    · rename_i hhead
      split at h
      · rename_i rawIssuedAt rawExpiresAt rawNonce rawSignature hdrop
        have hparts := List.take_append_drop kind.head.length (value.splitOn fieldDot)
        rw [Decidable.not_not.mp hhead, hdrop] at hparts
        exact ⟨_, hparts.symm, rfl⟩
      · cases h

/-- A kind whose head has no dots and leaves room for the longest fields. -/
structure Kind.Formed (kind : Kind) : Prop where
  head_ne_nil : kind.head ≠ []
  head_plain : ∀ field ∈ kind.head, fieldDot ∉ field
  room : (joinFields kind.head).length + 101 ≤ kind.maxWireLength
  lives : 0 < kind.maxAge

theorem length_numberText_safe {n : Nat} (h : n ≤ maxSafeInteger) : (numberText n).length ≤ 16 :=
  length_numberText_le (by decide) (lt_of_le_of_lt h (by decide))

theorem length_wireForm_le {kind : Kind} (hformed : kind.Formed) {c : Credential}
    (hhead : c.head = kind.head) (hrange : c.InRange) :
    (wireForm c).length ≤ kind.maxWireLength := by
  have hissued := length_numberText_safe hrange.issuedAt
  have hexpires := length_numberText_safe hrange.expiresAt
  have hnonce := Base64Url.length_encode c.nonce
  have htag := Base64Url.length_encode c.tag
  rw [hrange.nonce, nonceBytes] at hnonce
  rw [hrange.tag, signingKeyBytes] at htag
  have hroom := hformed.room
  have hfour : c.head ++ [numberText c.issuedAt, numberText c.expiresAt,
      Base64Url.encode c.nonce, Base64Url.encode c.tag] =
      (((kind.head ++ [numberText c.issuedAt]) ++ [numberText c.expiresAt]) ++
        [Base64Url.encode c.nonce]) ++ [Base64Url.encode c.tag] := by simp [hhead]
  rw [wireForm, hfour, joinFields_concat (by simp), joinFields_concat (by simp),
    joinFields_concat (by simp), joinFields_concat hformed.head_ne_nil]
  simp only [List.length_append, List.length_cons]
  omega

theorem decodeFields_wireForm {kind : Kind} (hformed : kind.Formed) {c : Credential}
    (hhead : c.head = kind.head) (hrange : c.InRange) :
    decodeFields kind (wireForm c) = some c := by
  have hplain : ∀ field ∈ c.head ++ [numberText c.issuedAt, numberText c.expiresAt,
      Base64Url.encode c.nonce, Base64Url.encode c.tag], fieldDot ∉ field := by
    intro field hfield
    simp only [List.mem_append, List.mem_cons, List.not_mem_nil, or_false] at hfield
    rcases hfield with hfield | rfl | rfl | rfl | rfl
    · exact hformed.head_plain field (hhead ▸ hfield)
    · exact fieldDot_not_mem_numberText _
    · exact fieldDot_not_mem_numberText _
    · exact fieldDot_not_mem_encode _
    · exact fieldDot_not_mem_encode _
  have hparts : (wireForm c).splitOn fieldDot = c.head ++ [numberText c.issuedAt,
      numberText c.expiresAt, Base64Url.encode c.nonce, Base64Url.encode c.tag] :=
    List.splitOn_intercalate fieldDot hplain (by simp)
  have hissued := canonicalUint_eq_some_iff.mpr ⟨rfl, hrange.issuedAt⟩
  have hexpires := canonicalUint_eq_some_iff.mpr ⟨rfl, hrange.expiresAt⟩
  have hnonce := (canonicalBase64Url_eq_some_iff (by decide)).mpr ⟨rfl, hrange.nonce⟩
  have htag := (canonicalBase64Url_eq_some_iff (by decide)).mpr ⟨rfl, hrange.tag⟩
  rw [decodeFields, if_neg (Nat.not_lt.mpr (length_wireForm_le hformed hhead hrange))]
  simp only [hparts, hhead, List.take_left', List.drop_left', ne_eq, not_true_eq_false,
    if_false, hissued, hexpires, hnonce, htag, Option.bind_eq_bind, Option.bind_some]
  have hpayload := hrange.payload
  rw [hhead, signedText] at hpayload
  rw [← hpayload, ← hhead]

/-! ## Minting -/

variable {store : CookieStore} {kind : Kind} {clock : CookieClock} {random : List UInt8}

def CookieStore.credential (store : CookieStore) (kind : Kind) (issuedAt : Nat)
    (nonce : List UInt8) : Credential :=
  let payload := signedText kind.head issuedAt (issuedAt + kind.maxAge) nonce
  ⟨kind.head, issuedAt, issuedAt + kind.maxAge, nonce, store.sign kind payload, payload⟩

theorem mintKind_eq_ok_iff {value : JsString} :
    store.mintKind kind clock random = .ok value ↔
      ∃ issuedAt, unixSeconds clock = .ok issuedAt ∧ issuedAt + kind.maxAge ≤ maxSafeInteger ∧
        random.length = nonceBytes ∧ value = wireForm (store.credential kind issuedAt random) := by
  rw [CookieStore.mintKind]
  cases hclock : unixSeconds clock with
  | error e =>
    constructor
    · intro h
      cases h
    · rintro ⟨issuedAt, h, -⟩
      cases h
  | ok now =>
    by_cases hsafe : now + kind.maxAge ≤ maxSafeInteger
    · have hnot := Nat.not_lt.mpr hsafe
      by_cases hlength : random.length = nonceBytes
      · simp [secureRandomBytes, hlength, hsafe, hnot, wireForm_eq, CookieStore.credential,
          signedText, bind, Except.bind, pure, Except.pure, eq_comm]
      · simp [secureRandomBytes, hlength, hnot, bind, Except.bind]
    · have hlt := Nat.not_le.mp hsafe
      simp [hsafe, hlt, bind, Except.bind, throw, throwThe, MonadExceptOf.throw]

theorem le_of_unixSeconds {now : Nat} (h : unixSeconds clock = .ok now) :
    now ≤ maxSafeInteger := by
  rw [unixSeconds] at h
  split at h
  · cases h
  · split at h
    · cases h
    · rename_i hvalid
      cases h
      omega

theorem length_sign (store : CookieStore) (kind : Kind) (payload : JsString) :
    (store.sign kind payload).length = signingKeyBytes :=
  store.hmac.length_digest _ _

theorem verifyTimes_eq_some_iff {issuedAt maxAge renewalWindow now : Nat} (hlives : 0 < maxAge)
    (hclock : unixSeconds clock = .ok now) :
    (∃ d, CookieStore.verifyTimes clock issuedAt (issuedAt + maxAge) maxAge renewalWindow =
      .ok (some d)) ↔ issuedAt ≤ now + futureSkewSeconds ∧ now < issuedAt + maxAge := by
  rw [CookieStore.verifyTimes, if_neg (by omega), hclock]
  by_cases htimes : now + futureSkewSeconds < issuedAt ∨ issuedAt + maxAge ≤ now
  · simp [bind, Except.bind, htimes, pure, Except.pure]
    omega
  · simp [bind, Except.bind, htimes, pure, Except.pure]
    omega

/-! ## The properties -/

/-- What `mint` returns is accepted from its issue, less the skew, up to its expiry. -/
def MintedIsAccepted (mint : CookieClock → List UInt8 → Except String JsString)
    (verify : CookieClock → JsString → Except String (Option CookieVerification))
    (maxAge : Nat) : Prop :=
  ∀ clock random value, mint clock random = .ok value →
    ∃ issuedAt, unixSeconds clock = .ok issuedAt ∧ ∀ later now, unixSeconds later = .ok now →
      ((∃ d, verify later value = .ok (some d)) ↔
        issuedAt ≤ now + futureSkewSeconds ∧ now < issuedAt + maxAge)

/-- A text is accepted only as the wire form of its decoded fields, which no other text has, with
    the store's digest for a tag. -/
def AcceptsWireForms (store : CookieStore) (kind : Kind)
    (verify : CookieClock → JsString → Except String (Option CookieVerification)) : Prop :=
  ∀ clock value d, verify clock value = .ok (some d) →
    ∃ c, decodeFields kind value = some c ∧ value = wireForm c ∧ c.head = kind.head ∧
      c.tag = store.sign kind (signedText c.head c.issuedAt c.expiresAt c.nonce) ∧
      d.issuedAt = c.issuedAt ∧ d.expiresAt = c.expiresAt ∧
      ∀ other, decodeFields kind other = some c → other = value

theorem mintedIsAccepted (hformed : kind.Formed) :
    MintedIsAccepted (store.mintKind kind) (store.verifyKind kind) kind.maxAge := by
  intro clock random value hmint
  obtain ⟨issuedAt, hclock, hsafe, hlength, rfl⟩ := mintKind_eq_ok_iff.mp hmint
  refine ⟨issuedAt, hclock, fun later now hlater => ?_⟩
  have hrange : (store.credential kind issuedAt random).InRange :=
    ⟨le_of_unixSeconds hclock, hsafe, hlength, length_sign _ _ _, rfl⟩
  rw [CookieStore.verifyKind, decodeFields_wireForm hformed rfl hrange]
  simp only [CookieStore.credential, ne_eq, not_true_eq_false, if_false]
  exact verifyTimes_eq_some_iff hformed.lives hlater

theorem decoded_of_accepted {value : JsString} {d : CookieVerification}
    (h : store.verifyKind kind clock value = .ok (some d)) :
    ∃ c, decodeFields kind value = some c ∧ store.sign kind c.payload = c.tag ∧
      d.issuedAt = c.issuedAt ∧ d.expiresAt = c.expiresAt := by
  rw [CookieStore.verifyKind] at h
  split at h
  · cases h
  · rename_i c hdecode
    split at h
    · cases h
    · rename_i hsign
      refine ⟨c, hdecode, Decidable.not_not.mp hsign, ?_⟩
      rw [CookieStore.verifyTimes] at h
      split at h
      · cases h
      · cases hclock : unixSeconds clock with
        | error e =>
          rw [hclock] at h
          cases h
        | ok now =>
          simp only [hclock, bind, Except.bind, pure, Except.pure] at h
          split at h
          · cases h
          · cases h
            exact ⟨rfl, rfl⟩

theorem acceptsWireForms : AcceptsWireForms store kind (store.verifyKind kind) := by
  intro clock value d h
  obtain ⟨c, hdecode, hsign, hissued, hexpires⟩ := decoded_of_accepted h
  obtain ⟨hwire, hhead, hrange⟩ := decodeFields_sound hdecode
  refine ⟨c, hdecode, hwire, hhead, ?_, hissued, hexpires, fun other hother => ?_⟩
  · rw [← hrange.payload, hsign]
  · rw [hwire, (decodeFields_sound hother).1]

theorem head_eq_of_accepted {other : Kind} {later : CookieClock} {value : JsString}
    {d d' : CookieVerification} (h : store.verifyKind kind clock value = .ok (some d))
    (h' : store.verifyKind other later value = .ok (some d')) : kind.head = other.head := by
  obtain ⟨c, hdecode, -⟩ := decoded_of_accepted h
  obtain ⟨c', hdecode', -⟩ := decoded_of_accepted h'
  obtain ⟨rest, hparts, hrest⟩ := parts_of_decodeFields hdecode
  obtain ⟨rest', hparts', hrest'⟩ := parts_of_decodeFields hdecode'
  exact (List.append_inj' (hparts.symm.trans hparts') (hrest.trans hrest'.symm)).1

/-! ## The two kinds -/

theorem sessionKind_formed : sessionKind.Formed :=
  ⟨by decide, by decide +kernel, by decide +kernel, by decide⟩

theorem lowerUnit_ne_dot {u : UInt16} (h : isHexUnit u = true ∨ u = 0x2D) :
    (if 0x41 ≤ u && u ≤ 0x46 then u + 0x20 else u) ≠ fieldDot := by
  rcases h with h | rfl
  · simp only [isHexUnit, isDigit, Bool.or_eq_true, Bool.and_eq_true, decide_eq_true_eq,
      UInt16.le_iff_toNat_le] at h
    intro heq
    have hnat := congrArg UInt16.toNat heq
    have hdot : fieldDot.toNat = 0x2E := rfl
    rw [hdot] at hnat
    split at hnat
    · rename_i hupper
      simp only [Bool.and_eq_true, decide_eq_true_eq, UInt16.le_iff_toNat_le] at hupper
      rw [UInt16.toNat_add] at hnat
      simp only [UInt16.reduceToNat] at h hupper hnat
      omega
    · simp only [UInt16.reduceToNat] at h
      omega
  · decide

/-- A canonical session id has 36 characters and no dots. -/
theorem canonicalPreviewSessionId_plain {sessionId canonical : JsString}
    (h : canonicalPreviewSessionId sessionId = some canonical) :
    canonical.length = 36 ∧ fieldDot ∉ canonical := by
  rw [canonicalPreviewSessionId] at h
  split at h
  · rename_i hid
    cases h
    rw [isPreviewSessionId, Bool.and_eq_true, beq_iff_eq, List.all_eq_true] at hid
    obtain ⟨hlengths, hhex⟩ := hid
    have hjoin : [0x2D].intercalate (sessionId.splitOn 0x2D) = sessionId :=
      List.intercalate_splitOn _
    obtain ⟨a, r₁, hgroups, ha, h₁⟩ := List.map_eq_cons_iff.mp hlengths
    obtain ⟨b, r₂, rfl, hb, h₂⟩ := List.map_eq_cons_iff.mp h₁
    obtain ⟨c, r₃, rfl, hc, h₃⟩ := List.map_eq_cons_iff.mp h₂
    obtain ⟨d, r₄, rfl, hd, h₄⟩ := List.map_eq_cons_iff.mp h₃
    obtain ⟨e, r₅, rfl, he, h₅⟩ := List.map_eq_cons_iff.mp h₄
    rw [hgroups, List.map_eq_nil_iff.mp h₅] at hhex hjoin
    simp only [List.intercalate_cons_cons, List.intercalate_singleton] at hjoin
    constructor
    · rw [lowerCased, List.length_map, ← hjoin]
      simp only [List.length_append, List.length_singleton]
      omega
    · intro hdot
      obtain ⟨u, hu, hlower⟩ := List.mem_map.mp hdot
      have hunit : isHexUnit u = true ∨ u = 0x2D := by
        simp only [← hjoin, List.mem_append, List.mem_singleton] at hu
        have hgroup : ∀ g ∈ [a, b, c, d, e], u ∈ g → isHexUnit u = true :=
          fun g hg hug => List.all_eq_true.mp (hhex g hg) u hug
        simp only [List.forall_mem_cons] at hgroup
        tauto
      exact lowerUnit_ne_dot hunit hlower
  · cases h

theorem previewKind_formed {sessionId canonical : JsString}
    (h : canonicalPreviewSessionId sessionId = some canonical) : (previewKind canonical).Formed := by
  obtain ⟨hlength, hplain⟩ := canonicalPreviewSessionId_plain h
  refine ⟨List.cons_ne_nil _ _, ?_, ?_, (by decide : 0 < previewMaxAgeSeconds)⟩
  · intro field hfield
    simp only [previewKind, List.mem_cons, List.not_mem_nil, or_false] at hfield
    rcases hfield with rfl | rfl
    · decide +kernel
    · exact hplain
  · have hversion : (js "pv1").length = 3 := by decide +kernel
    simp [previewKind, joinFields, hlength, hversion]

/-- **Session cookies are exact.** For every key and digest: what `mint` returns verifies at the
    times from its issue, less the skew, up to but not including its expiry; a value that
    verifies is the wire form of its decoded fields, under the store's digest, and no other value
    is decoded to them; and no value verifies as a session and as a preview cookie, or as a
    preview cookie for two sessions. -/
theorem cookies_exact (store : CookieStore) :
    MintedIsAccepted store.mint store.verify maxAgeSeconds ∧
    (∀ sessionId, MintedIsAccepted (store.mintPreviewResource sessionId)
      (fun clock value => store.verifyPreviewResource value sessionId clock)
      previewMaxAgeSeconds) ∧
    AcceptsWireForms store sessionKind store.verify ∧
    (∀ sessionId canonical, canonicalPreviewSessionId sessionId = some canonical →
      AcceptsWireForms store (previewKind canonical)
        fun clock value => store.verifyPreviewResource value sessionId clock) ∧
    (∀ clock later value sessionId d d', store.verify clock value = .ok (some d) →
      store.verifyPreviewResource value sessionId later ≠ .ok (some d')) ∧
    ∀ clock later value sessionId other d d',
      store.verifyPreviewResource value sessionId clock = .ok (some d) →
      store.verifyPreviewResource value other later = .ok (some d') →
      canonicalPreviewSessionId sessionId = canonicalPreviewSessionId other := by
  refine ⟨mintedIsAccepted sessionKind_formed, fun sessionId => ?_, acceptsWireForms, ?_, ?_, ?_⟩
  · cases hid : canonicalPreviewSessionId sessionId with
    | none =>
      intro clock random value hmint
      rw [CookieStore.mintPreviewResource, hid] at hmint
      cases hmint
    | some canonical =>
      have hminted : MintedIsAccepted (store.mintKind (previewKind canonical))
          (store.verifyKind (previewKind canonical)) (previewKind canonical).maxAge :=
        mintedIsAccepted (previewKind_formed hid)
      intro clock random value hmint
      rw [CookieStore.mintPreviewResource, hid] at hmint
      obtain ⟨issuedAt, hclock, htimes⟩ := hminted clock random value hmint
      refine ⟨issuedAt, hclock, fun later now hlater => ?_⟩
      simpa only [CookieStore.verifyPreviewResource, hid, previewKind] using
        htimes later now hlater
  · intro sessionId canonical hid clock value d h
    simp only [CookieStore.verifyPreviewResource, hid] at h
    exact acceptsWireForms clock value d h
  · intro clock later value sessionId d d' h h'
    rw [CookieStore.verifyPreviewResource] at h'
    split at h'
    · cases h'
    · have hlength := congrArg List.length (head_eq_of_accepted h h')
      simp [sessionKind, previewKind] at hlength
  · intro clock later value sessionId other d d' h h'
    rw [CookieStore.verifyPreviewResource] at h h'
    split at h
    · cases h
    · rename_i canonical hid
      split at h'
      · cases h'
      · rename_i canonical' hid'
        have hhead := head_eq_of_accepted h h'
        simp only [previewKind, List.cons.injEq, and_true, true_and] at hhead
        rw [hid, hid', hhead]

/-! ## An issued cookie -/

/-- A digest that answers one message, under the key 0, 1, …, 31, as HMAC-SHA-256 does. -/
def sampleHmac : Hmac where
  digest key message :=
    if key = (List.range 32).map UInt8.ofNat ∧
        message = asciiBytes (js "v1.1700000000.1702592000.AAECAwQFBgcICQoLDA0ODw") then
      [5, 232, 168, 158, 132, 30, 189, 96, 116, 238, 62, 119, 41, 151, 240, 11] ++
        [15, 105, 13, 19, 40, 173, 185, 12, 165, 226, 21, 213, 83, 127, 182, 179]
    else List.replicate 32 0
  length_digest key message := by split <;> rfl

def sampleStore : CookieStore := ⟨sampleHmac, (List.range 32).map UInt8.ofNat, by decide⟩

/-- The cookie of nonce 0, 1, …, 15 that is issued at 1700000000. -/
def sampleCookie : JsString :=
  js "v1.1700000000.1702592000.AAECAwQFBgcICQoLDA0ODw." ++
    js "BeionoQevWB07j53KZfwCw9pDRMorbkMpeIV1VN_trM"

/-- It is minted, and verifies from five minutes before its issue up to its expiry. -/
theorem sample_cookie_verifies :
    sampleStore.mint ⟨some 1700000000⟩ ((List.range 16).map UInt8.ofNat) = .ok sampleCookie ∧
    ∀ later now, unixSeconds later = .ok now →
      ((∃ d, sampleStore.verify later sampleCookie = .ok (some d)) ↔
        1700000000 ≤ now + 300 ∧ now < 1702592000) := by
  have hmint : sampleStore.mint ⟨some 1700000000⟩ ((List.range 16).map UInt8.ofNat) =
      .ok sampleCookie := by decide +kernel
  refine ⟨hmint, ?_⟩
  obtain ⟨issuedAt, hclock, htimes⟩ := (cookies_exact sampleStore).1 _ _ _ hmint
  cases hclock
  exact htimes

/-! ## The header of a request -/

/-- The units of names and values: `-` to `z`, without those that a header is read by. -/
def isPlain (u : UInt16) : Bool :=
  0x2D ≤ u.toNat ∧ u.toNat ≤ 0x7A ∧ u ≠ semicolon ∧ u ≠ equalsSign

def AllPlain (s : JsString) : Prop := ∀ u ∈ s, isPlain u = true

theorem not_trimmed_of_plain {u : UInt16} (h : isPlain u = true) : isTrimmed u = false := by
  by_contra htrimmed
  simp only [isPlain, decide_eq_true_eq] at h
  simp only [Bool.not_eq_false, isTrimmed, List.mem_cons, List.not_mem_nil, or_false,
    Bool.or_eq_true, decide_eq_true_eq, Bool.and_eq_true, UInt16.le_iff_toNat_le,
    ← UInt16.toNat_inj, UInt16.reduceToNat] at htrimmed
  omega

theorem trim_plain {s : JsString} (h : AllPlain s) : trim s = s := by
  rw [trim, List.dropWhile_eq_self_iff.mpr, List.rdropWhile_eq_self_iff.mpr]
  · intro hne
    simp [not_trimmed_of_plain (h _ (List.getLast_mem hne))]
  · intro hlength
    simp [not_trimmed_of_plain (h _ (List.getElem_mem hlength))]

theorem decodeURIComponent_plain {s : JsString} (h : AllPlain s) :
    decodeURIComponent s = some s := by
  rw [decodeURIComponent]
  induction s with
  | nil => rfl
  | cons u rest ih =>
    obtain ⟨hu, hrest⟩ := List.forall_mem_cons.mp h
    have hpercent : u ≠ percent := by
      rintro rfl
      exact absurd hu (by decide)
    simp [decodeUnits, hpercent, ih hrest]

theorem get?_foldl_addCookie {name : JsString} {parts : List JsString}
    {out : JsMap JsString JsString} (h : ∀ part ∈ parts, equalsSign ∈ part → partName part ≠ name) :
    (parts.foldl addCookie out).get? name = out.get? name := by
  induction parts generalizing out with
  | nil => rfl
  | cons part rest ih =>
    obtain ⟨hpart, hrest⟩ := List.forall_mem_cons.mp h
    rw [List.foldl_cons, ih hrest, addCookie]
    split
    · rfl
    · rename_i hset
      push Not at hset
      rw [JsMap.get?_set, if_neg (Ne.symm (hpart hset.1))]

theorem get?_addCookie {name held blank : JsString} {out : JsMap JsString JsString}
    (hne : name ≠ [] ∧ name ≠ js "__proto__") (hname : AllPlain name) (hheld : AllPlain held)
    (hblank : ∀ u ∈ blank, u = 0x20) :
    (addCookie out (blank ++ name ++ equalsSign :: held)).get? name = some held := by
  have hfront : ∀ u ∈ blank ++ name, decide (u ≠ equalsSign) = true := by
    intro u hu
    rcases List.mem_append.mp hu with hu | hu
    · rw [hblank u hu]
      decide
    · exact decide_eq_true (of_decide_eq_true (hname u hu)).2.2.2
  have hpart : partName (blank ++ name ++ equalsSign :: held) = name := by
    rw [partName, List.takeWhile_append_of_pos hfront]
    have htrim : trim (blank ++ name) = trim name := by
      rw [trim, List.dropWhile_append_of_pos, trim]
      intro u hu
      rw [hblank u hu]
      decide
    simp [htrim, trim_plain hname]
  rw [addCookie, hpart, List.dropWhile_append_of_pos hfront]
  simp [hne, JsMap.get?_set, trim_plain hheld, decodeURIComponent_plain hheld]

theorem forall_mem_intercalate {P : UInt16 → Prop} {sep : UInt16} (hsep : P sep)
    {fields : List JsString} (h : ∀ field ∈ fields, ∀ u ∈ field, P u) :
    ∀ u ∈ [sep].intercalate fields, P u := by
  induction fields with
  | nil => simp
  | cons field rest ih =>
    obtain ⟨hfield, hrest⟩ := List.forall_mem_cons.mp h
    cases rest with
    | nil => simpa using hfield
    | cons next rest =>
      rw [List.intercalate_cons_cons]
      simp only [List.forall_mem_append, List.forall_mem_singleton]
      exact ⟨⟨hfield, hsep⟩, ih hrest⟩

theorem plain_wireForm {c : Credential} (h : ∀ field ∈ c.head, AllPlain field) :
    AllPlain (wireForm c) := by
  have hnumber : ∀ n, AllPlain (numberText n) := by
    intro n u hu
    have hdigit := digit_of_mem_numberText hu
    simp only [isPlain, semicolon, equalsSign, decide_eq_true_eq, ne_eq, ← UInt16.toNat_inj,
      UInt16.reduceToNat]
    omega
  have hencode : ∀ bytes, AllPlain (Base64Url.encode bytes) := fun bytes u hu =>
    List.all_eq_true.mp (by decide +kernel : Base64Url.alphabet.all isPlain = true) u
      (Base64Url.mem_alphabet_of_mem_encode hu)
  refine forall_mem_intercalate (by decide) fun field hfield => ?_
  simp only [List.mem_append, List.mem_cons, List.not_mem_nil, or_false] at hfield
  rcases hfield with hfield | rfl | rfl | rfl | rfl
  · exact h field hfield
  · exact hnumber _
  · exact hnumber _
  · exact hencode _
  · exact hencode _

theorem plain_canonicalPreviewSessionId {sessionId canonical : JsString}
    (h : canonicalPreviewSessionId sessionId = some canonical) : AllPlain canonical := by
  rw [canonicalPreviewSessionId] at h
  split at h
  · rename_i hid
    cases h
    rw [isPreviewSessionId, Bool.and_eq_true, List.all_eq_true] at hid
    intro u hu
    obtain ⟨c, hc, rfl⟩ := List.mem_map.mp hu
    have hunit : isHexUnit c = true ∨ c = 0x2D := by
      have hjoin : [0x2D].intercalate (sessionId.splitOn 0x2D) = sessionId :=
        List.intercalate_splitOn _
      rw [← hjoin] at hc
      refine forall_mem_intercalate (P := fun c => isHexUnit c = true ∨ c = 0x2D) (.inr rfl) ?_ c hc
      exact fun group hgroup c hc => .inl (List.all_eq_true.mp (hid.2 group hgroup) c hc)
    simp only [isPlain, isHexUnit, isDigit, semicolon, equalsSign, Bool.or_eq_true,
      Bool.and_eq_true, decide_eq_true_eq, UInt16.le_iff_toNat_le, ne_eq,
      ← UInt16.toNat_inj] at hunit ⊢
    split <;> simp only [UInt16.toNat_add, UInt16.reduceToNat] at * <;> omega
  · cases h

/-! ## Visits -/

/-- A request of a browser: what stands before and after the cookie in its header; the clock when
    it is authenticated, when the cookie is verified again and when one is issued; and the random
    bytes for that. -/
structure Visit where
  before : List JsString
  after : List JsString
  clock : CookieClock
  check : CookieClock
  later : CookieClock
  random : List UInt8

/-- The parts of the header; each but the first stands after a blank. -/
def Visit.parts (v : Visit) (name held : JsString) : List JsString :=
  v.before ++ ((if v.before = [] then [] else [0x20]) ++ name ++ equalsSign :: held) :: v.after

def Visit.header (v : Visit) (name held : JsString) : Option JsString :=
  some ([semicolon].intercalate (v.parts name held))

/-- The other parts are parts, and none behind the cookie has its name. -/
def Visit.Proper (v : Visit) (name : JsString) : Prop :=
  (∀ part ∈ v.before ++ v.after, semicolon ∉ part) ∧
    ∀ part ∈ v.after, equalsSign ∈ part → partName part ≠ name

theorem parseCookies_some (header : JsString) :
    parseCookies (some header) = (header.splitOn semicolon).foldl addCookie [] := by
  rw [parseCookies]
  split
  · rename_i hnil
    rw [hnil]
    rfl
  · rfl

theorem get?_parseCookies {v : Visit} {name held : JsString} (h : v.Proper name)
    (hne : name ≠ [] ∧ name ≠ js "__proto__") (hname : AllPlain name) (hheld : AllPlain held) :
    (parseCookies (v.header name held)).get? name = some held := by
  obtain ⟨hparts, hafter⟩ := h
  rw [List.forall_mem_append] at hparts
  have hblank : ∀ u ∈ (if v.before = [] then [] else [0x20] : JsString), u = 0x20 := by
    split <;> simp
  have hsplit : ∀ part ∈ v.parts name held, semicolon ∉ part := by
    simp only [Visit.parts, List.forall_mem_append, List.forall_mem_cons]
    refine ⟨hparts.1, fun hmem => ?_, hparts.2⟩
    simp only [List.mem_append, List.mem_cons] at hmem
    rcases hmem with (hmem | hmem) | hmem | hmem
    · exact absurd (hblank _ hmem) (by decide)
    · exact absurd (hname _ hmem) (by decide)
    · exact absurd hmem (by decide)
    · exact absurd (hheld _ hmem) (by decide)
  rw [Visit.header, parseCookies_some, List.splitOn_intercalate _ hsplit (by simp [Visit.parts]),
    Visit.parts, List.foldl_append, List.foldl_cons, get?_foldl_addCookie hafter,
    get?_addCookie hne hname hheld hblank]

/-- Each visit is let in with the cookie that the browser holds, which may be replaced on it. -/
def LetIn (name : JsString) (authenticate : Option JsString → CookieClock → Except String Bool)
    (issue : Option JsString → Visit → Except String (Option JsString)) :
    JsString → List Visit → Prop
  | _, [] => True
  | held, v :: rest => authenticate (v.header name held) v.clock = .ok true ∧
    ∃ issued, issue (v.header name held) v = .ok issued ∧
      LetIn name authenticate issue (issued.getD held) rest

/-- Each visit begins within the renewal window after the cookie was verified again on the one
    before, at `seen`, and after its end at `done`; its header is proper, and a cookie can be issued
    on it. -/
def Regular (name : JsString) (kind : Kind) : Nat → Nat → List Visit → Prop
  | _, _, [] => True
  | seen, done, v :: rest => v.Proper name ∧ ∃ now checked later, unixSeconds v.clock = .ok now ∧
    unixSeconds v.check = .ok checked ∧ unixSeconds v.later = .ok later ∧
    (done ≤ now ∧ now ≤ seen + kind.renewalWindow) ∧ (now ≤ checked ∧ checked ≤ later) ∧
    later + kind.maxAge ≤ maxSafeInteger ∧ v.random.length = nonceBytes ∧
    Regular name kind checked later rest

/-- What a signed credential verifies as. -/
theorem verifyKind_credential (hformed : kind.Formed) {issuedAt now : Nat} {nonce : List UInt8}
    (hnonce : nonce.length = nonceBytes) (hsafe : issuedAt + kind.maxAge ≤ maxSafeInteger)
    (hclock : unixSeconds clock = .ok now) (hissued : issuedAt ≤ now) :
    store.verifyKind kind clock (wireForm (store.credential kind issuedAt nonce)) =
      .ok (if now < issuedAt + kind.maxAge then some ⟨issuedAt, issuedAt + kind.maxAge,
        issuedAt + kind.maxAge - now ≤ kind.renewalWindow⟩ else none) := by
  have hlives := hformed.lives
  have hrange : (store.credential kind issuedAt nonce).InRange :=
    ⟨(Nat.le_add_right _ _).trans hsafe, hsafe, hnonce, length_sign _ _ _, rfl⟩
  rw [CookieStore.verifyKind, decodeFields_wireForm hformed rfl hrange]
  simp only [CookieStore.credential, ne_eq, not_true_eq_false, if_false]
  rw [CookieStore.verifyTimes, if_neg (by omega), hclock]
  by_cases hold : now < issuedAt + kind.maxAge
  · have htimes : ¬ (now + futureSkewSeconds < issuedAt ∨ issuedAt + kind.maxAge ≤ now) := by omega
    simp [bind, Except.bind, htimes, hold, pure, Except.pure]
  · have htimes : now + futureSkewSeconds < issuedAt ∨ issuedAt + kind.maxAge ≤ now := by omega
    simp [bind, Except.bind, htimes, hold, pure, Except.pure]

/-- The name of a cookie, and the fields before its times. -/
def Kind.Sent (kind : Kind) (name : JsString) : Prop :=
  (name ≠ [] ∧ name ≠ js "__proto__") ∧ AllPlain name ∧ ∀ field ∈ kind.head, AllPlain field

section

variable {name : JsString} {authenticate : Option JsString → CookieClock → Except String Bool}
  {issue : Option JsString → Visit → Except String (Option JsString)}

theorem letIn_of_regular (hformed : kind.Formed) (hwindow : kind.renewalWindow < kind.maxAge)
    (hsent : kind.Sent name)
    (hauthenticate : ∀ header clock held, (parseCookies header).get? name = some held →
      authenticate header clock = Option.isSome <$> store.verifyKind kind clock held)
    (hissue : ∀ header v held, (parseCookies header).get? name = some held →
      issue header v = issueUnlessFresh (store.verifyKind kind v.check held)
        (store.mintKind kind v.later v.random))
    {issuedAt seen done : Nat} {nonce : List UInt8} (hnonce : nonce.length = nonceBytes)
    (hsafe : issuedAt + kind.maxAge ≤ maxSafeInteger) (hissued : issuedAt ≤ done)
    (hlives : seen + kind.renewalWindow < issuedAt + kind.maxAge) {visits : List Visit}
    (h : Regular name kind seen done visits) :
    LetIn name authenticate issue (wireForm (store.credential kind issuedAt nonce)) visits := by
  -- the cookie outlives the window after each visit: else it is replaced on the visit
  induction visits generalizing issuedAt seen done nonce with
  | nil => trivial
  | cons v rest ih =>
    obtain ⟨hproper, now, checked, later, hclock, hcheck, hlater, hgap, hle, hroom, hrandom,
      hrest⟩ := h
    have hread := get?_parseCookies hproper hsent.1 hsent.2.1
      (plain_wireForm (c := store.credential kind issuedAt nonce) hsent.2.2)
    have hverify : store.verifyKind kind v.clock (wireForm (store.credential kind issuedAt nonce)) =
        _ := verifyKind_credential hformed hnonce hsafe hclock (by omega)
    have hagain : store.verifyKind kind v.check (wireForm (store.credential kind issuedAt nonce)) =
        _ := verifyKind_credential hformed hnonce hsafe hcheck (by omega)
    rw [if_pos (by omega)] at hverify
    refine ⟨by rw [hauthenticate _ _ _ hread, hverify]; rfl, ?_⟩
    rw [hissue _ _ _ hread, issueUnlessFresh, hagain]
    by_cases hfresh : checked + kind.renewalWindow < issuedAt + kind.maxAge
    · refine ⟨none, ?_, ih hnonce hsafe (by omega) hfresh hrest⟩
      have hrenew : ¬ issuedAt + kind.maxAge - checked ≤ kind.renewalWindow := by omega
      rw [if_pos (by omega)]
      simp [bind, Except.bind, hrenew, pure, Except.pure]
    · refine ⟨some (wireForm (store.credential kind later v.random)), ?_,
        ih hrandom hroom (le_refl _) (by omega) hrest⟩
      rw [mintKind_eq_ok_iff.mpr ⟨later, hlater, hroom, hrandom,
        (rfl : wireForm (store.credential kind later v.random) = _)⟩]
      have hrenew : issuedAt + kind.maxAge - checked ≤ kind.renewalWindow := by omega
      split <;> simp [bind, Except.bind, hrenew, Functor.map, Except.map]

end

/-- **Sliding sessions.** A browser that comes back within each renewal window is never turned away:
    every request authenticates with the cookie that the requests before have left, whatever else
    is in its header. -/
theorem visits_let_in (store : CookieStore) :
    (∀ clock random held issuedAt visits, store.mint clock random = .ok held →
      unixSeconds clock = .ok issuedAt → Regular cookieName sessionKind issuedAt issuedAt visits →
      LetIn cookieName store.tryAuth
        (fun header v => store.issueIfMissing header v.check v.later v.random) held visits) ∧
    ∀ sessionId canonical clock random held issuedAt visits,
      canonicalPreviewSessionId sessionId = some canonical →
      store.mintPreviewResource sessionId clock random = .ok held →
      unixSeconds clock = .ok issuedAt →
      Regular previewCookieName (previewKind canonical) issuedAt issuedAt visits →
      LetIn previewCookieName (fun header clock => store.tryPreviewAuth header sessionId clock)
        (fun header v => store.issuePreviewCookieIfMissing header sessionId v.check v.later
          v.random) held visits := by
  constructor
  · intro clock random held issuedAt visits hmint hclock h
    obtain ⟨_, hissued, hsafe, hrandom, rfl⟩ := mintKind_eq_ok_iff.mp hmint
    cases hclock.symm.trans hissued
    have hsent : sessionKind.Sent cookieName :=
      ⟨by decide +kernel, List.all_eq_true.mp (by decide +kernel),
        List.forall_mem_singleton.mpr (List.all_eq_true.mp (by decide +kernel))⟩
    refine letIn_of_regular sessionKind_formed (by decide) hsent ?_ ?_ hrandom hsafe (le_refl _)
      (Nat.add_lt_add_left (by decide) _) h
    · intro header clock held hread
      rw [CookieStore.tryAuth, hread]
      rfl
    · intro header v held hread
      rw [CookieStore.issueIfMissing, hread]
      rfl
  · intro sessionId canonical clock random held issuedAt visits hid hmint hclock h
    simp only [CookieStore.mintPreviewResource, hid] at hmint
    obtain ⟨_, hissued, hsafe, hrandom, rfl⟩ := mintKind_eq_ok_iff.mp hmint
    cases hclock.symm.trans hissued
    have hwindow : (previewKind canonical).renewalWindow < (previewKind canonical).maxAge := by
      show previewRenewalWindowSeconds < previewMaxAgeSeconds
      decide
    have hsent : (previewKind canonical).Sent previewCookieName := by
      refine ⟨by decide +kernel, List.all_eq_true.mp (by decide +kernel), ?_⟩
      simp only [previewKind, List.forall_mem_cons]
      exact ⟨List.all_eq_true.mp (by decide +kernel), plain_canonicalPreviewSessionId hid, nofun⟩
    refine letIn_of_regular (previewKind_formed hid) hwindow hsent ?_ ?_ hrandom hsafe (le_refl _)
      (Nat.add_lt_add_left hwindow _) h
    · intro header clock held hread
      rw [CookieStore.tryPreviewAuth, hread, CookieStore.verifyPreviewResource, hid]
      rfl
    · intro header v held hread
      rw [CookieStore.issuePreviewCookieIfMissing, hread, CookieStore.verifyPreviewResource,
        CookieStore.mintPreviewResource, hid]
      rfl

/-- A request a week after the issue, with another cookie. -/
theorem sample_visit_let_in :
    LetIn cookieName sampleStore.tryAuth
      (fun header v => sampleStore.issueIfMissing header v.check v.later v.random) sampleCookie
      [⟨[js "theme=dark"], [], ⟨some 1700600000⟩, ⟨some 1700600000⟩, ⟨some 1700600001⟩,
        List.replicate 16 7⟩] := by
  have hmint : sampleStore.mint ⟨some 1700000000⟩ ((List.range 16).map UInt8.ofNat) =
      .ok sampleCookie := by decide +kernel
  refine (visits_let_in sampleStore).1 _ _ _ 1700000000 _ hmint rfl ⟨⟨?_, nofun⟩,
    1700600000, 1700600000, 1700600001, rfl, rfl, rfl, by decide, by decide, by decide, rfl,
    trivial⟩
  decide +kernel

end Bobbit.Server.Cookie
