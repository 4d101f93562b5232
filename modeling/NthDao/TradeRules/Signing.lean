/-
  Signed trade documents (`nth_dao/trade_rules/signing.py`).

  * `signedDocumentInput`: the bytes under a signature, the canonical document
    without its `proof_value` behind the domain and a zero byte;
  * `verifyEd25519DidSignature`: the check of a proof value against a DID.

  Offers, recognitions and policies are documents of one kind: a canonical object
  with a `proof`, checked field by field and then signed by the DID that one of
  its fields names.  `Format` holds what differs; a `SignedDocument` is a
  document that passed, with its canonical bytes.

  * `SignedDocument.fromDict`, `fromJson`, `digest`: the constructors and the
    digest of the three classes;
  * `fromJson_canonical`: a document reads back from its bytes, and
    `SignedDocument.ext_canonical`: the bytes determine it.
-/
import NthDao.Identity
import NthDao.Py.Str
import NthDao.TradeRules.Canonical

namespace NthDao.TradeRules

open Py

variable (H : Host)

/-! ## Proofs -/

/-- `verification_method_for_did`. -/
def verificationMethodForDid (did : String) : Except String String := do
  require (startsWith "did:key:z" did) "publisher DID is not a did:key"
  return did ++ "#" ++ String.ofList ((chars did).drop 8)

/-- `decode_canonical_ed25519_signature`. -/
def decodeCanonicalEd25519Signature (value : Json) : Except String Bytes := do
  let text ← expect (value.asStr.filter fun s => len s == 86)
    "proof value is not an Ed25519 signature"
  let signature ← expect (b64uDecode text) "proof value is not canonical base64url"
  require (signature.length == 64 && b64uEncode signature == text)
    "proof value is not a canonical Ed25519 signature"
  return signature

/-- `signed_document_input`. -/
def signedDocumentInput (domain : Bytes) (document : Json) : Except String Bytes := do
  let proof := Json.get document.fields "proof"
  require (proof.isObj && (Json.lookup proof.fields "proof_value").isSome)
    "document proof is incomplete"
  let proof := Json.obj (proof.fields.filter fun p => p.1 != "proof_value")
  let canonical ← tradeCanonicalJson (.obj (Json.insert document.fields "proof" proof))
  return domain ++ 0 :: canonical

/-- `verify_ed25519_did_signature`. -/
def verifyEd25519DidSignature (publisherDid : String) (proofValue : Json) (signingInput : Bytes) :
    Except String Unit :=
  match decodeCanonicalEd25519Signature proofValue, decodeDidKey publisherDid with
  | .ok signature, some pubkey =>
    require (H.verify pubkey signingInput signature) "signature invalid"
  | _, _ => .error "signature invalid"

/-! ## Documents -/

/-- What one kind of signed document differs in. -/
structure Format where
  /-- the checks on the fields -/
  validate : Json → Except String Unit
  /-- the field with the DID that signs -/
  signer : String
  domain : Bytes
  /-- the reason given for the reason of a signature that does not verify -/
  refusal : String → String

/-- The check of the signature of a document. -/
def Format.verifySignature (F : Format) (document : Json) : Except String Unit :=
  (do
    let signingInput ← signedDocumentInput F.domain document
    let did ← expect (Json.get document.fields F.signer).asStr "signature invalid"
    verifyEd25519DidSignature H did
      (Json.get (Json.get document.fields "proof").fields "proof_value") signingInput).mapError
    F.refusal

/-- A document that passed every check, with its canonical bytes. -/
structure SignedDocument (F : Format) where
  document : Json
  canonicalBytes : Bytes
  encodes : tradeCanonicalJson document = .ok canonicalBytes
  parses : parseTradeJson canonicalBytes = some document
  valid : F.validate document = .ok ()
  signed : F.verifySignature H document = .ok ()

variable {F : Format}

namespace SignedDocument

/-- The bytes of a value that is read back are those of what is read. -/
theorem encodes_of_parses {v w : Json} {b : Bytes} (hw : v.wf = true)
    (hb : tradeCanonicalJson v = .ok b) (h : parseTradeJson b = some w) :
    w = v.norm ∧ tradeCanonicalJson w = .ok b := by
  rw [parseTradeJson_of_canonical hw hb] at h
  cases h
  exact ⟨rfl, tradeCanonicalJson_norm.2 hb⟩

variable (F) in
/-- `from_dict`.  A value with a key twice is no `dict`. -/
def fromDict (v : Json) : Except String (SignedDocument H F) :=
  if hw : v.wf = true then
    match hb : tradeCanonicalJson v with
    | .error e => .error e
    | .ok canonical =>
      match hp : parseTradeJson canonical with
      | none => .error "invalid trade JSON"
      | some snapshot =>
        match hv : F.validate snapshot with
        | .error e => .error e
        | .ok () =>
          match hs : F.verifySignature H snapshot with
          | .error e => .error e
          | .ok () => .ok ⟨snapshot, canonical, (encodes_of_parses hw hb hp).2, hp, hv, hs⟩
  else .error "invalid trade JSON"

variable (F) in
/-- `from_json` of bytes. -/
def fromJson (raw : Bytes) : Except String (SignedDocument H F) :=
  match parseTradeJson raw with
  | none => .error "invalid trade JSON"
  | some v => fromDict H F v

/-- The digest of a document. -/
def digest (d : SignedDocument H F) : String := "sha256:" ++ H.sha256 d.canonicalBytes

variable {H}

/-- **When a value is accepted**: the document is the value with sorted keys. -/
theorem fromDict_eq_ok {v : Json} {d : SignedDocument H F} : fromDict H F v = .ok d ↔
    v.wf = true ∧ tradeCanonicalJson v = .ok d.canonicalBytes := by
  constructor
  · intro h
    rw [fromDict] at h
    split_ifs at h with hw
    refine ⟨hw, ?_⟩
    split at h
    · cases h
    rename_i canonical hb
    split at h
    · cases h
    rename_i snapshot hp
    split at h
    · cases h
    split at h
    · cases h
    cases h
    exact hb
  · rintro ⟨hw, hb⟩
    obtain ⟨hdoc, -⟩ := encodes_of_parses hw hb d.parses
    rw [fromDict, dif_pos hw]
    split
    · rename_i e he
      rw [hb] at he
      cases he
    rename_i canonical hb'
    rw [hb] at hb'
    cases hb'
    split
    · rename_i hp
      rw [d.parses] at hp
      cases hp
    rename_i snapshot hp
    have hsnap : snapshot = d.document := by
      rw [d.parses] at hp
      exact (Option.some.inj hp).symm
    subst hsnap
    split
    · rename_i e he
      rw [d.valid] at he
      cases he
    split
    · rename_i e he
      rw [d.signed] at he
      cases he
    rfl

theorem document_of_fromDict {v : Json} {d : SignedDocument H F} (h : fromDict H F v = .ok d) :
    d.document = v.norm :=
  (encodes_of_parses (fromDict_eq_ok.1 h).1 (fromDict_eq_ok.1 h).2 d.parses).1

/-- The canonical bytes determine the document. -/
theorem ext_canonical {d e : SignedDocument H F} (h : d.canonicalBytes = e.canonicalBytes) :
    d = e := by
  have hdoc : d.document = e.document := by
    have := d.parses
    rw [h, e.parses] at this
    exact (Option.some.inj this).symm
  cases d
  cases e
  cases h
  cases hdoc
  rfl

theorem wf_document (d : SignedDocument H F) : d.document.wf = true :=
  (parseTradeJson_eq_some d.parses).1

theorem norm_document (d : SignedDocument H F) : d.document.norm = d.document := by
  have h := parseTradeJson_of_canonical d.wf_document d.encodes
  rw [d.parses] at h
  exact (Option.some.inj h).symm

theorem fromDict_document (d : SignedDocument H F) : fromDict H F d.document = .ok d :=
  fromDict_eq_ok.2 ⟨d.wf_document, d.encodes⟩

/-- **A document reads back from its bytes.** -/
theorem fromJson_canonical (d : SignedDocument H F) : fromJson H F d.canonicalBytes = .ok d := by
  rw [fromJson, d.parses]
  exact d.fromDict_document

/-- A value that passes every check is accepted. -/
theorem exists_fromDict {v : Json} {b : Bytes} (hw : v.wf = true) (hb : tradeCanonicalJson v = .ok b)
    (hv : F.validate v.norm = .ok ()) (hs : F.verifySignature H v.norm = .ok ()) :
    ∃ d : SignedDocument H F, fromDict H F v = .ok d ∧ d.document = v.norm :=
  ⟨⟨v.norm, b, tradeCanonicalJson_norm.2 hb, parseTradeJson_of_canonical hw hb, hv, hs⟩,
    fromDict_eq_ok.2 ⟨hw, hb⟩, rfl⟩

/-- A document that is read from bytes is what `from_dict` makes of a parsed value. -/
theorem fromJson_eq_ok {raw : Bytes} {d : SignedDocument H F} (h : fromJson H F raw = .ok d) :
    ∃ v, parseTradeJson raw = some v ∧ fromDict H F v = .ok d := by
  rw [fromJson] at h
  split at h
  · cases h
  · rename_i v hv
    exact ⟨v, hv, h⟩

end SignedDocument

/-! ## Signing -/

/-- `document["proof"]["proof_value"] = value`. -/
def withProofValue (document : Json) (value : String) : Json :=
  .obj (Json.insert document.fields "proof"
    (.obj (Json.insert (Json.get document.fields "proof").fields "proof_value" (.str value))))

variable {H}

/-- The signature is not among the signed bytes. -/
theorem signedDocumentInput_withProofValue {domain : Bytes} {document : Json} {value : String}
    {input : Bytes} (h : signedDocumentInput domain document = .ok input) :
    signedDocumentInput domain (withProofValue document value) = .ok input := by
  simp only [signedDocumentInput, bind_eq_ok, require_eq_ok] at h ⊢
  obtain ⟨_, -, canonical, hc, hi⟩ := h
  have hproof : Json.get (withProofValue document value).fields "proof" =
      .obj (Json.insert (Json.get document.fields "proof").fields "proof_value" (.str value)) := by
    rw [withProofValue, Json.fields_obj, Json.get, Json.lookup_insert, if_pos rfl]
    rfl
  refine ⟨(), ?_, canonical, ?_, hi⟩
  · rw [hproof, Json.fields_obj, Json.lookup_insert, if_pos rfl]
    rfl
  · rw [hproof, Json.fields_obj, Json.filter_insert, withProofValue, Json.fields_obj,
      Json.insert_insert]
    exact hc

/-- Sorting keys does not change what is signed. -/
theorem signedDocumentInput_norm {domain : Bytes} {document : Json} (hw : document.wf = true)
    {input : Bytes} (h : signedDocumentInput domain document = .ok input) :
    signedDocumentInput domain document.norm = .ok input := by
  cases document with
  | obj kvs =>
    have hn := (Json.wf_obj.1 hw).1
    have hnn : ((Json.obj kvs).norm.fields.map Prod.fst).Nodup := by
      rw [Json.norm_obj, Json.fields_obj]
      exact (Json.keys_normFields kvs).nodup_iff.2 hn
    simp only [signedDocumentInput, bind_eq_ok, require_eq_ok, Bool.and_eq_true, Json.fields_obj,
      Json.get_norm hn, Json.isObj_norm] at h ⊢
    obtain ⟨_, ⟨hobj, hvalue⟩, canonical, hc, hi⟩ := h
    have hproof := Json.eq_obj_of_isObj hobj
    have hpw : (Json.obj (Json.get kvs "proof").fields).wf = true := hproof ▸ Json.wf_get hw "proof"
    generalize (Json.get kvs "proof").fields = ps at *
    rw [hproof] at hobj ⊢
    have hpn := (Json.wf_obj.1 hpw).1
    have hpnn : ((Json.obj ps).norm.fields.map Prod.fst).Nodup := by
      rw [Json.norm_obj, Json.fields_obj]
      exact (Json.keys_normFields ps).nodup_iff.2 hpn
    have hfilter : (Json.obj ((Json.obj ps).norm.fields.filter fun p => p.1 != "proof_value")).norm =
        (Json.obj (ps.filter fun p => p.1 != "proof_value")).norm := by
      refine Json.norm_obj_of_lookup (Json.nodup_filter hpnn _) (Json.nodup_filter hpn _) fun k => ?_
      rw [Json.lookup_filter_key _ (· != "proof_value"), Json.lookup_filter_key _ (· != "proof_value"),
        Json.lookup_norm hpn]
      split_ifs
      · rw [Option.map_map]
        congr 1
        exact funext Json.norm_norm
      · rfl
    refine ⟨(), ⟨hobj, ?_⟩, canonical, ?_, hi⟩
    · rw [Json.lookup_norm hpn, Option.isSome_map]
      exact hvalue
    · rw [← tradeCanonicalJson_norm] at hc ⊢
      rw [← hc]
      congr 1
      refine Json.norm_obj_of_lookup (Json.nodup_insert hnn _ _) (Json.nodup_insert hn _ _) fun k => ?_
      rw [Json.lookup_insert, Json.lookup_insert]
      split_ifs
      · rw [Option.map_some, Option.map_some, hfilter]
      · rw [Json.lookup_norm hn, Option.map_map]
        congr 1
        exact funext Json.norm_norm
  | _ =>
    simp only [signedDocumentInput, bind_eq_ok] at h
    obtain ⟨_, h, -⟩ := h
    cases h

theorem verifySignature_norm {document : Json} (hw : document.wf = true)
    (h : F.verifySignature H document = .ok ()) : F.verifySignature H document.norm = .ok () := by
  cases document with
  | obj kvs =>
    have hn := (Json.wf_obj.1 hw).1
    rw [Format.verifySignature, mapError_eq_ok] at h ⊢
    simp only [bind_eq_ok, expect_eq_ok] at h ⊢
    obtain ⟨input, hi, did, hd, hv⟩ := h
    refine ⟨input, signedDocumentInput_norm hw hi, did, ?_, ?_⟩
    · rw [Json.get_norm hn, Json.asStr_norm]
      exact hd
    · have hp : (Json.get (Json.get (Json.obj kvs).norm.fields "proof").fields "proof_value") =
          (Json.get (Json.get kvs "proof").fields "proof_value").norm := by
        rw [Json.get_norm hn]
        have hpw := Json.wf_get hw "proof"
        cases hg : Json.get kvs "proof" with
        | obj ps =>
          rw [hg] at hpw
          exact Json.get_norm (Json.wf_obj.1 hpw).1 _
        | arr xs => rw [Json.norm_arr]; rfl
        | _ => rfl
      rw [hp]
      have hs : decodeCanonicalEd25519Signature
          (Json.get (Json.get kvs "proof").fields "proof_value").norm =
          decodeCanonicalEd25519Signature (Json.get (Json.get kvs "proof").fields "proof_value") := by
        rw [decodeCanonicalEd25519Signature, decodeCanonicalEd25519Signature, Json.asStr_norm]
      rw [verifyEd25519DidSignature, hs]
      exact hv
  | arr xs =>
    rw [Format.verifySignature, mapError_eq_ok] at h
    simp only [signedDocumentInput, bind_eq_ok] at h
    obtain ⟨_, ⟨_, h, -⟩, -⟩ := h
    cases h
  | _ => exact h

/-- **An honestly signed document verifies.** -/
theorem verifySignature_of_signed {k : H.SecretKey} {document : Json} {input : Bytes}
    (hi : signedDocumentInput F.domain document = .ok input)
    (hd : Json.get document.fields F.signer = .str (asDid H k)) (hne : F.signer ≠ "proof") :
    F.verifySignature H (withProofValue document (signText H k input)) = .ok () := by
  have hsigner : Json.get (withProofValue document (signText H k input)).fields F.signer =
      .str (asDid H k) := by
    rw [withProofValue, Json.fields_obj, Json.get, Json.lookup_insert, if_neg hne.symm]
    exact hd
  have hvalue : Json.get (Json.get (withProofValue document (signText H k input)).fields
      "proof").fields "proof_value" = .str (signText H k input) := by
    simp only [withProofValue, Json.fields_obj, Json.get, Json.lookup_insert, if_true,
      Option.getD_some]
  have hsig : decodeCanonicalEd25519Signature (.str (signText H k input)) =
      .ok (H.sign k input) := by
    have hl : len (signText H k input) = 86 := by rw [len_eq, length_signText]
    simp only [decodeCanonicalEd25519Signature, Json.asStr, Option.filter_some, hl, beq_self_eq_true,
      if_true, expect, ok_bind]
    rw [signText, b64uDecode_b64uEncode]
    simp only [ok_bind, H.sign_length, beq_self_eq_true, Bool.and_self, require, if_true]
    rfl
  rw [Format.verifySignature, signedDocumentInput_withProofValue hi, hsigner, hvalue, mapError_eq_ok]
  simp only [ok_bind, Json.asStr, expect, verifyEd25519DidSignature, hsig, decodeDidKey_asDid,
    H.verify_sign, require, if_true]

variable (F) in
/-- A draft with its signature filled in. -/
def sealDocument (k : H.SecretKey) (draft : Json) : Json :=
  withProofValue draft (signText H k ((signedDocumentInput F.domain draft).toOption.getD []))

/-- A signed draft that passes the checks is accepted. -/
theorem exists_sealDocument {k : H.SecretKey} {draft : Json} {input b : Bytes}
    (hi : signedDocumentInput F.domain draft = .ok input)
    (hd : Json.get draft.fields F.signer = .str (asDid H k)) (hne : F.signer ≠ "proof")
    (hw : (sealDocument F k draft).wf = true) (hb : tradeCanonicalJson (sealDocument F k draft) = .ok b)
    (hv : F.validate (sealDocument F k draft).norm = .ok ()) :
    ∃ d : SignedDocument H F, SignedDocument.fromDict H F (sealDocument F k draft) = .ok d ∧
      d.document = (sealDocument F k draft).norm := by
  refine SignedDocument.exists_fromDict hw hb hv (verifySignature_norm hw ?_)
  rw [sealDocument, hi]
  exact verifySignature_of_signed hi hd hne

/-- A draft that is accepted once it is signed, with what its checks compute. -/
structure Sealable (F : Format) (k : H.SecretKey) (draft : Json) : Type where
  signer : Json.get draft.fields F.signer = .str (asDid H k)
  input : (signedDocumentInput F.domain draft).toOption.isSome = true
  canonical : (tradeCanonicalJson (sealDocument F k draft)).toOption.isSome = true
  wf : (sealDocument F k draft).wf = true
  valid : (F.validate (sealDocument F k draft).norm).toOption.isSome = true

/-- The checks of a sealed draft, computed together. -/
def sealChecks (F : Format) (k : H.SecretKey) (draft : Json) : Bool :=
  (signedDocumentInput F.domain draft).toOption.isSome &&
    (tradeCanonicalJson (sealDocument F k draft)).toOption.isSome &&
    (sealDocument F k draft).wf && (F.validate (sealDocument F k draft).norm).toOption.isSome

theorem sealChecks_eq_true {k : H.SecretKey} {draft : Json} : sealChecks F k draft = true ↔
    (((signedDocumentInput F.domain draft).toOption.isSome = true ∧
      (tradeCanonicalJson (sealDocument F k draft)).toOption.isSome = true) ∧
      (sealDocument F k draft).wf = true) ∧
      (F.validate (sealDocument F k draft).norm).toOption.isSome = true := by
  simp only [sealChecks, Bool.and_eq_true]

def Sealable.ofChecks {k : H.SecretKey} {draft : Json}
    (hsigner : Json.get draft.fields F.signer = .str (asDid H k))
    (h : sealChecks F k draft = true) : Sealable F k draft where
  signer := hsigner
  input := (sealChecks_eq_true.1 h).1.1.1
  canonical := (sealChecks_eq_true.1 h).1.1.2
  wf := (sealChecks_eq_true.1 h).1.2
  valid := (sealChecks_eq_true.1 h).2

theorem Sealable.exists_document {k : H.SecretKey} {draft : Json} (s : Sealable F k draft)
    (hne : F.signer ≠ "proof") :
    ∃ d : SignedDocument H F, SignedDocument.fromDict H F (sealDocument F k draft) = .ok d ∧
      d.document = (sealDocument F k draft).norm := by
  obtain ⟨input, hi⟩ := exists_ok s.input
  obtain ⟨b, hb⟩ := exists_ok s.canonical
  exact exists_sealDocument hi s.signer hne s.wf hb (eq_ok_of_isSome s.valid)

/-- The fields of a sealed draft are its own, but for the proof. -/
theorem Sealable.get_norm {k : H.SecretKey} {draft : Json} (s : Sealable F k draft) {name : String}
    (hname : name ≠ "proof") : Json.get (sealDocument F k draft).norm.fields name =
      (Json.get draft.fields name).norm := by
  rw [sealDocument, withProofValue, Json.get_norm, Json.get, Json.lookup_insert,
    if_neg (Ne.symm hname)]
  · rfl
  · exact (Json.wf_obj.1 s.wf).1

end NthDao.TradeRules
