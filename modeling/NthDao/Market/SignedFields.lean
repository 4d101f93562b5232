/-
  What the signature of an announcement covers.

  The signed text leaves out fields of older records, and the schema has to fix each of
  these to its neutral value.

  * `SignsOnce`: the signature of a record verifies for one text only;
  * `same` is `==` of two records;
  * `signature_covers_iff`: two verified records with one signature are equal, but for the
    `authority_did` of a record of version 1, which nothing fixes.
-/
import NthDao.Market.Announcement
import NthDao.Py.Equal
import NthDao.Py.Norm

namespace NthDao

open Py

namespace Market

variable (H : Host)

/-! ## Equal records -/

/-- `v == w` of two fields; a price that is 0 may be a `float`. -/
def sameValue (v w : Json) : Bool := eqv v w || (eqZero v && eqZero w)

/-- `a == b`: field by field. -/
def TaskAnnouncement.same (a b : TaskAnnouncement) : Bool :=
  announcementFields.all fun f => sameValue (Json.get a.toDict f) (Json.get b.toDict f)

/-- The signature of a record verifies for one text only under the key of its publisher. -/
def SignsOnce (a : TaskAnnouncement) : Prop :=
  ∀ did pk sig m m', a.publisherDid = .str did → decodeDidKey did = some pk →
    b64uDecode (toStr H.isprintable a.publisherSig) = some sig →
    H.verify pk m sig = true → H.verify pk m' sig = true → m = m'

/-! ## What a check has seen -/

variable {H} {a b : TaskAnnouncement}

/-- A verified record: its schema is right, and its text is signed. -/
theorem verifyAnnouncement_eq_ok (h : verifyAnnouncement H a = .ok ()) :
    validateAnnouncementSchema H a = .ok () ∧
      ∃ did pk sig m, a.publisherDid = .str did ∧ decodeDidKey did = some pk ∧
        b64uDecode (toStr H.isprintable a.publisherSig) = some sig ∧
        canonicalJson (.obj a.signingBody) = some m ∧ H.verify pk m sig = true := by
  simp only [verifyAnnouncement, expect_bind_eq_ok, unit_bind_eq_ok,
    require_eq_ok] at h
  obtain ⟨-, hschema, did, hdid, pk, hpk, sig, hsig, m, hm, hverify⟩ := h
  refine ⟨hschema, did, pk, sig, m, ?_, hpk, hsig, hm, hverify⟩
  cases hd : a.publisherDid with
  | str s =>
    rw [hd] at hdid
    cases hdid
    rfl
  | _ => rw [hd] at hdid; cases hdid

theorem legacy_iff : a.legacy = true ↔ a.kind = .str kindV1 ∨ a.kind = .str kindV2 := by
  rw [TaskAnnouncement.legacy, Bool.or_eq_true, Json.eqStr_iff, Json.eqStr_iff]

/-- The kind is one of the four, and an older record has no commerce fields. -/
theorem validateAnnouncementSchema_eq_ok (h : validateAnnouncementSchema H a = .ok ()) :
    (∃ k, a.kind = .str k) ∧ (a.legacy = true → checkNoListing a = .ok ()) := by
  simp only [validateAnnouncementSchema, unit_bind_eq_ok, require_eq_ok] at h
  obtain ⟨-, hkind, -, -, -, -, -, -, h⟩ := h
  constructor
  · rw [Bool.or_eq_true, Bool.or_eq_true, legacy_iff, Json.eqStr_iff, Json.eqStr_iff] at hkind
    rcases hkind with ((hk | hk) | hk) | hk <;> exact ⟨_, hk⟩
  · intro hl
    have hother : a.kind.eqStr kindV3 = false ∧ a.kind.eqStr kindTradeOffer = false := by
      rcases legacy_iff.1 hl with hk | hk <;> rw [hk] <;> decide
    simp only [hother.1, hother.2, Bool.false_eq_true, if_false, unit_bind_eq_ok] at h
    exact h.1

/-- An older record has the neutral values. -/
theorem checkNoListing_eq_ok (h : checkNoListing a = .ok ()) :
    a.listingType = .str "" ∧ a.offerDigest = .str "" ∧ a.offerUri = .str "" ∧
      eqZero a.priceMinor = true ∧ a.priceAsset = .str "" ∧ a.availabilitySummary = .obj [] := by
  simp only [checkNoListing, require_eq_ok, Bool.and_eq_true, Json.eqStr_iff] at h
  obtain ⟨⟨⟨⟨⟨h₁, h₂⟩, h₃⟩, h₄⟩, h₅⟩, h₆⟩ := h
  refine ⟨h₁, h₂, h₃, h₄, h₅, ?_⟩
  unfold eqEmptyObj at h₆
  split at h₆
  · assumption
  · cases h₆

/-! ## Signed fields -/

theorem wf_signingBody (h : (Json.obj a.toDict).wf = true) :
    (Json.obj a.signingBody).wf = true := by
  rw [Json.wf_obj] at h ⊢
  exact ⟨Json.nodup_filter h.1 _, fun p hp => h.2 p (List.mem_of_mem_filter hp)⟩

/-- What the signed text has at a field. -/
theorem lookup_signingBody (a : TaskAnnouncement) (f : String) :
    Json.lookup a.signingBody f =
      if f != "publisher_sig" && !a.unsignedFields.contains f then Json.lookup a.toDict f
      else none :=
  Json.lookup_filter_key a.toDict (fun f => f != "publisher_sig" && !a.unsignedFields.contains f) f

theorem kind_not_mem_unsignedFields (a : TaskAnnouncement) :
    a.unsignedFields.contains "kind" = false := by
  unfold TaskAnnouncement.unsignedFields
  split_ifs <;> decide

/-- Two records with one signature have one signed text. -/
theorem norm_signingBody (ha : verifyAnnouncement H a = .ok ())
    (hb : verifyAnnouncement H b = .ok ()) (hwa : (Json.obj a.toDict).wf = true)
    (hwb : (Json.obj b.toDict).wf = true) (hdid : a.publisherDid = b.publisherDid)
    (hsig : a.publisherSig = b.publisherSig) (hone : SignsOnce H a) :
    (Json.obj a.signingBody).norm = (Json.obj b.signingBody).norm := by
  obtain ⟨-, did, pk, sig, m, hd, hpk, hs, hm, hv⟩ := verifyAnnouncement_eq_ok ha
  obtain ⟨-, did', pk', sig', m', hd', hpk', hs', hm', hv'⟩ := verifyAnnouncement_eq_ok hb
  rw [← hdid, hd] at hd'
  cases hd'
  rw [hpk] at hpk'
  cases hpk'
  rw [← hsig, hs] at hs'
  cases hs'
  obtain rfl := hone did pk sig m m' hd hpk hs hv hv'
  exact canonicalJson_injective (wf_signingBody hwa) (wf_signingBody hwb) hm hm'

/-- A field that both sign has one value in both. -/
theorem eqv_signed (hn : (Json.obj a.signingBody).norm = (Json.obj b.signingBody).norm)
    (hwa : (Json.obj a.toDict).wf = true) (hwb : (Json.obj b.toDict).wf = true) {f : String}
    (hsig : f ≠ "publisher_sig") (ha : a.unsignedFields.contains f = false)
    (hb : b.unsignedFields.contains f = false) :
    (Json.get a.toDict f).norm = (Json.get b.toDict f).norm := by
  have hna := (Json.wf_obj.1 (wf_signingBody hwa)).1
  have hnb := (Json.wf_obj.1 (wf_signingBody hwb)).1
  have hget : ∀ c : TaskAnnouncement, c.unsignedFields.contains f = false →
      Json.get c.signingBody f = Json.get c.toDict f := by
    intro c hc
    rw [Json.get, Json.get, lookup_signingBody, hc, if_pos (by simp [hsig])]
  rw [← hget a ha, ← hget b hb, ← Json.get_norm hna, ← Json.get_norm hnb, hn]

/-! ## Unsigned fields -/

/-- The commerce fields of an older record. -/
def commerceFields : List String :=
  ["listing_type", "offer_digest", "offer_uri", "price_minor", "price_asset",
    "availability_summary"]

theorem unsignedFields_eq (a : TaskAnnouncement) : a.unsignedFields =
    (if a.legacy = true then commerceFields else []) ++
      if a.kind.eqStr kindV1 = true then ["authority_did"] else [] := rfl

theorem unsignedFields_congr (h : a.kind = b.kind) : a.unsignedFields = b.unsignedFields := by
  rw [unsignedFields_eq, unsignedFields_eq, TaskAnnouncement.legacy, TaskAnnouncement.legacy, h]

/-- The neutral values are the same in all older records. -/
theorem sameValue_commerce (ha : checkNoListing a = .ok ()) (hb : checkNoListing b = .ok ())
    {f : String} (hf : f ∈ commerceFields) :
    sameValue (Json.get a.toDict f) (Json.get b.toDict f) = true := by
  obtain ⟨hl, hd, hu, hp, hs, hv⟩ := checkNoListing_eq_ok ha
  obtain ⟨hl', hd', hu', hp', hs', hv'⟩ := checkNoListing_eq_ok hb
  rw [commerceFields, List.mem_cons, List.mem_cons, List.mem_cons, List.mem_cons, List.mem_cons,
    List.mem_singleton] at hf
  rcases hf with rfl | rfl | rfl | rfl | rfl | rfl
  · show sameValue a.listingType b.listingType = true
    rw [hl, hl']; rfl
  · show sameValue a.offerDigest b.offerDigest = true
    rw [hd, hd']; rfl
  · show sameValue a.offerUri b.offerUri = true
    rw [hu, hu']; rfl
  · show sameValue a.priceMinor b.priceMinor = true
    rw [sameValue, hp, hp', Bool.and_self, Bool.or_true]
  · show sameValue a.priceAsset b.priceAsset = true
    rw [hs, hs']; rfl
  · show sameValue a.availabilitySummary b.availabilitySummary = true
    rw [hv, hv']; rfl

/-- **A signature covers the whole record** but for the `authority_did` of version 1. -/
theorem signature_covers_iff (ha : verifyAnnouncement H a = .ok ())
    (hb : verifyAnnouncement H b = .ok ()) (hwa : (Json.obj a.toDict).wf = true)
    (hwb : (Json.obj b.toDict).wf = true) (hdid : a.publisherDid = b.publisherDid)
    (hsig : a.publisherSig = b.publisherSig) (hone : SignsOnce H a) :
    a.same b = true ↔
      (a.kind = .str kindV1 → sameValue a.authorityDid b.authorityDid = true) := by
  obtain ⟨⟨k, hk⟩, hlega⟩ := validateAnnouncementSchema_eq_ok (verifyAnnouncement_eq_ok ha).1
  obtain ⟨⟨k', hk'⟩, hlegb⟩ := validateAnnouncementSchema_eq_ok (verifyAnnouncement_eq_ok hb).1
  have hn := norm_signingBody ha hb hwa hwb hdid hsig hone
  have hkind : a.kind = b.kind := by
    have h := eqv_signed (f := "kind") hn hwa hwb (by decide)
      (kind_not_mem_unsignedFields a) (kind_not_mem_unsignedFields b)
    have h : a.kind.norm = b.kind.norm := h
    rw [hk, hk'] at h ⊢
    exact h
  have hunsigned := unsignedFields_congr hkind
  rw [TaskAnnouncement.same, List.all_eq_true]
  constructor
  · intro h _
    exact h "authority_did" (by decide)
  · intro hauth f hf
    by_cases hs : f = "publisher_sig"
    · subst hs
      have hwsig : a.publisherSig.wf = true := wf_toDict.1 hwa _ (by simp [TaskAnnouncement.values])
      show sameValue a.publisherSig b.publisherSig = true
      rw [sameValue, ← hsig, eqv_refl _ hwsig, Bool.true_or]
    by_cases hu : a.unsignedFields.contains f = true
    · rw [List.contains_iff_mem, unsignedFields_eq, List.mem_append] at hu
      rcases hu with hu | hu
      · -- the schema fixes the commerce fields of both
        split_ifs at hu with hl
        · have hlb : b.legacy = true := by
            rwa [legacy_iff, ← hkind, ← legacy_iff]
          exact sameValue_commerce (hlega hl) (hlegb hlb) hu
        · cases hu
      · -- nothing fixes the authority of version 1
        split_ifs at hu with h1
        · rw [List.mem_singleton] at hu
          subst hu
          exact hauth (Json.eqStr_iff.1 h1)
        · cases hu
    · rw [Bool.not_eq_true] at hu
      have hnorm := eqv_signed hn hwa hwb hs hu (hunsigned ▸ hu)
      rw [sameValue, eqv_of_norm (Json.wf_get hwa f) (Json.wf_get hwb f) hnorm, Bool.true_or]

/-! ## Two records with one signature -/

/-- A host with two signatures: that of one text, and that of all others. -/
def oneTextHost (text : Bytes) : Host :=
  { checksumHost with
    sign := fun _ m => List.replicate 64 (if m = text then 1 else 0)
    sign_length := by simp
    verify := fun _ m s => s == List.replicate 64 (if m = text then 1 else 0)
    verify_sign := by simp }

/-- A record of version 1, with what it says of its authority. -/
def legacySample (authority : String) : TaskAnnouncement :=
  { announcementId := .str "a1", publisherDid := .str (encodeDidKey (List.replicate 32 1)),
    title := .str "t", authorityDid := .str authority, listingType := .str "",
    offerDigest := .str "", offerUri := .str "", priceMinor := .int 0, priceAsset := .str "",
    availabilitySummary := .obj [], capabilitySet := .arr [], context := .str "general",
    inputSchema := .obj [], acceptance := .obj [], rewardMinor := .int 0,
    rewardAsset := .str "credit", missionId := .str "", claimantPolicy := .obj [],
    description := .str "", publishedAtMs := .int 1, notAfter := .int 0, kind := .str kindV1,
    publisherSig := .str (b64uEncode (List.replicate 64 1)) }

/-- The host that signs the record. -/
def legacyHost : Host :=
  oneTextHost ((canonicalJson (.obj (legacySample "").signingBody)).getD [])

theorem signsOnce_legacySample (authority : String) :
    SignsOnce legacyHost (legacySample authority) := by
  intro did pk sig m m' _ _ hsig hm hm'
  have hdec : b64uDecode (toStr legacyHost.isprintable (legacySample authority).publisherSig) =
      some (List.replicate 64 1) := b64uDecode_b64uEncode _
  rw [hdec] at hsig
  cases hsig
  have only : ∀ x : Bytes, legacyHost.verify pk x (List.replicate 64 1) = true →
      x = (canonicalJson (.obj (legacySample "").signingBody)).getD [] := by
    intro x hx
    by_contra hne
    have hx : (List.replicate 64 1 == List.replicate 64 (if x = _ then (1 : UInt8) else 0)) = true :=
      hx
    rw [if_neg hne] at hx
    exact absurd hx (by decide)
  rw [only m hm, only m' hm']

/-- The checks of two such records. -/
def legacyChecks : PLift (verifyAnnouncement legacyHost (legacySample "") = .ok () ∧
    verifyAnnouncement legacyHost (legacySample "x") = .ok ()) := ⟨by decide +kernel⟩

theorem legacySample_wf : (Json.obj (legacySample "").toDict).wf = true ∧
    (Json.obj (legacySample "x").toDict).wf = true := by decide

/-- **The authority of version 1 can be changed** under a signature that verifies for one
    text only. -/
theorem signature_leaves_authority : ∃ a b : TaskAnnouncement,
    verifyAnnouncement legacyHost a = .ok () ∧ verifyAnnouncement legacyHost b = .ok () ∧
    a.publisherDid = b.publisherDid ∧ a.publisherSig = b.publisherSig ∧ SignsOnce legacyHost a ∧
    a.same b = false :=
  ⟨legacySample "", legacySample "x", legacyChecks.down.1, legacyChecks.down.2, rfl, rfl,
    signsOnce_legacySample "", by decide⟩

/-- The theorem on these two. -/
theorem signature_covers_sample : (legacySample "").same (legacySample "x") = true ↔
    ((legacySample "").kind = .str kindV1 →
      sameValue (legacySample "").authorityDid (legacySample "x").authorityDid = true) :=
  signature_covers_iff legacyChecks.down.1 legacyChecks.down.2 legacySample_wf.1 legacySample_wf.2
    rfl rfl (signsOnce_legacySample "")

end Market

end NthDao
