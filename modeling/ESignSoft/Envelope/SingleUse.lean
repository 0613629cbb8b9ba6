import ESignSoft.Envelope.Signatures

/-!
# A link signs at most once, and only after consent

Tokens are stored under one row at a time and replaced only by tokens nobody has seen yet, so the token
of a signature on record is never again the link of an open row.  Consent is written once and a claim
is made with a consent that was read before its own moment.

* `links_commit` — a commit keeps the links of the envelope in order;
* `link_signs_once` — what holds of every signature of every run.
-/

namespace ESignSoft.Envelope

open ESignSoft.Lib.JsText ESignSoft.Lib.Table ESignSoft.Lib.Interleaving
open ESignSoft.Contracts ESignSoft.Signing

/-- The token has made a signature. -/
def Used (w : World) (token : Nat) : Prop := token ∈ w.signings.map Signing.token

/-- The signature was made with the link its row held, by a signer who had agreed before. -/
def Proper (sg : Signing) : Prop :=
  ∃ before after consented completed, sg.row = .recipient before after ∧
    before.signingTokenHash = some (.sha256 sg.token) ∧
    after.consentAt = some consented ∧ after.completedAt = some completed ∧ consented ≤ completed

/-- Whoever has this id agreed at this time. -/
def Consented (db : Db) (id : Nat) (at_ : Int) : Prop :=
  ∀ r ∈ db.recipients, r.id = id → r.consentAt = some at_

/-- Nobody has seen the token. -/
structure Fresh (w : World) (token : Nat) : Prop where
  minted : token < w.minted
  unused : ¬ Used w token
  unstored : ∀ r ∈ w.db.recipients, r.signingTokenHash ≠ some (.sha256 token)

structure Links (w : World) : Prop where
  minted : ∀ r ∈ w.db.recipients, ∀ t, r.signingTokenHash = some (.sha256 t) → t < w.minted
  distinct : ∀ r ∈ w.db.recipients, ∀ q ∈ w.db.recipients,
    r.signingTokenHash = q.signingTokenHash → r.signingTokenHash ≠ none → r.id = q.id
  unused : ∀ r ∈ w.db.recipients, r.open_ = true → ∀ t, r.signingTokenHash = some (.sha256 t) →
    ¬ Used w t
  used : ∀ t, Used w t → t < w.minted
  once : (w.signings.map Signing.token).Nodup
  legacy : ∀ row, w.db.request = some row → row.signingTokenHash = none
  consent : ∀ r ∈ w.db.recipients, ∀ c, r.consentAt = some c → c ≤ w.now
  proper : ∀ sg ∈ w.signings, Proper sg

structure ProcLinks (w : World) (l : Proc) : Prop where
  loaded : ∀ token visit req, l = .loaded token visit req →
    ∃ id, req.recipientId = some id ∧ req.signingTokenHash = .sha256 token ∧
      ∀ c, req.consentAt = some c → c ≤ w.now ∧ Consented w.db id c
  claim : ∀ id hash data k, l.pending = some (.claimed id hash data, k) →
    ∃ token documentName now, k = .claimed token documentName now ∧ hash = .sha256 token ∧
      ∃ c, c ≤ data.completedAt ∧ Consented w.db id c
  consent : ∀ id now k, l.pending = some (.consented id now, k) → now ≤ w.now
  fresh : ∀ write k, l.pending = some (write, k) → ∀ id token, (id, token) ∈ write.links → Fresh w token
  own : ∀ write k, l.pending = some (write, k) → ∀ id id' token, (id, token) ∈ write.links →
    (id', token) ∈ write.links → id = id'

/-- Two processes never have the same token in hand. -/
def Apart (l l' : Proc) : Prop :=
  ∀ write k write' k', l.pending = some (write, k) → l'.pending = some (write', k') →
    ∀ id id' token, (id, token) ∈ write.links → (id', token) ∉ write'.links

/-! ## What a commit does to consents and links -/

theorem onRecipient_claimed {r : Recipient} {hash : TokenHash} (hhash : r.signingTokenHash = some hash)
    (hopen : r.open_ = true) (data : ClaimData) :
    ((Write.claimed r.id hash data).onRecipient r).consentAt = r.consentAt ∧
    ((Write.claimed r.id hash data).onRecipient r).completedAt = some data.completedAt ∧
    ((Write.claimed r.id hash data).onRecipient r).status = .completed := by
  simp only [Write.onRecipient]
  rw [updateRow_of_true (by simp [hhash, hopen])]
  exact ⟨rfl, rfl, rfl⟩

/-- A consent on record stays. -/
theorem onRecipient_consentAt (write : Write) (r : Recipient) :
    (write.onRecipient r).consentAt = r.consentAt ∨
      r.consentAt = none ∧ ∃ now, write = .consented r.id now ∧
        (write.onRecipient r).consentAt = some now := by
  have hspec := onRecipient_spec write r
  generalize write.onRecipient r = r' at hspec ⊢
  cases hspec with
  | consented now hw hopen hnone => exact Or.inr ⟨hnone, now, hw, rfl⟩
  | _ => exact Or.inl rfl

theorem Consented.write {db : Db} {id : Nat} {c : Int} (h : Consented db id c) (write : Write) :
    Consented (db.write write) id c := by
  intro r' hr' hid
  obtain ⟨r, hr, rfl⟩ := exists_of_mem_write hr'
  rw [onRecipient_id] at hid
  have hc := h r hr hid
  rcases onRecipient_consentAt write r with hsame | ⟨hnone, -⟩
  · rw [hsame, hc]
  · rw [hnone] at hc
    cases hc

/-- A row that is open after a commit was open before with the same link, or holds a link of the
commit. -/
theorem open_of_onRecipient {write : Write} {r : Recipient} (hcc : r.role = .cc → r.signingTokenHash = none)
    (hactivates : ∀ id ∈ write.activates, id = r.id → r.role = .cc)
    (hopen : (write.onRecipient r).open_ = true) {t : Nat}
    (hhash : (write.onRecipient r).signingTokenHash = some (.sha256 t)) :
    (r.open_ = true ∧ r.signingTokenHash = some (.sha256 t)) ∨ (r.id, t) ∈ write.links := by
  have hspec := onRecipient_spec write r
  generalize write.onRecipient r = r' at hopen hhash hspec
  cases hspec with
  | same => exact Or.inl ⟨hopen, hhash⟩
  | viewed now ip ua hw hsent => exact Or.inl ⟨Recipient.open_iff.mpr (Or.inl hsent), hhash⟩
  | consented now hw hwas hnone => exact Or.inl ⟨hwas, hhash⟩
  | claimed hash data hw hwas hold => exact Or.inl ⟨hold, hhash⟩
  | activated group now hw hmem =>
      -- A `cc` has no link to keep.
      have hrole : r.role = .cc := by
        refine hactivates r.id ?_ rfl
        rw [hw]
        exact mem_activates_handedOff.mpr hmem
      rw [show r.signingTokenHash = some (.sha256 t) from hhash] at hcc
      cases hcc hrole
  | invited group now token hw hsigner hpending =>
      obtain rfl := TokenHash.sha256.inj (Option.some.inj hhash)
      refine Or.inr ?_
      rw [hw]
      exact mem_links_handedOff.mpr hsigner
  | cleared hw hleft => cases hhash
  | resent token now hw =>
      obtain rfl := TokenHash.sha256.inj (Option.some.inj hhash)
      refine Or.inr ?_
      rw [hw]
      exact List.mem_singleton.mpr rfl
  | reminded token now hw =>
      obtain rfl := TokenHash.sha256.inj (Option.some.inj hhash)
      refine Or.inr ?_
      rw [hw]
      exact List.mem_singleton.mpr rfl

/-! ## The signatures of a commit -/

theorem length_signedRows (id : Nat) (hash : TokenHash) (data : ClaimData) (db : Db) :
    ((Write.claimed id hash data).signedRows db).length = (Write.claimed id hash data).count db := by
  simp [Write.signedRows, Write.count, matchCount, List.countP_eq_length_filter]

theorem length_signings_le (write : Write) (k : Kont) (db : Db) : (write.signings k db).length ≤ 1 := by
  unfold Write.signings
  split
  · split
    · rename_i hcount
      rw [List.length_map]
      cases write with
      | claimed id hash data =>
          have hrows := length_signedRows id hash data db
          omega
      | claimedLegacy hash data =>
          have hrows : ((Write.claimedLegacy hash data).signedRows db).length =
              (Write.claimedLegacy hash data).count db := by
            simp [Write.signedRows, Write.count, matchCount, List.countP_eq_length_filter]
          omega
      | _ => simp [Write.signedRows]
    · simp
  · simp

/-- A new signature is that of an open row under its link. -/
theorem signing_of_commit {w : World} {write : Write} {k : Kont} (hw : Links w)
    (hproc : ProcLinks w (.writing write k)) {sg : Signing} (hsg : sg ∈ write.signings k w.db) :
    ∃ r ∈ w.db.recipients, ∃ data, write = .claimed r.id (.sha256 sg.token) data ∧
      r.signingTokenHash = some (.sha256 sg.token) ∧ r.open_ = true ∧
      sg.row = .recipient r (write.onRecipient r) := by
  obtain ⟨⟨documentName, now, rfl⟩, hrow⟩ := mem_signings hsg
  rcases hrow with ⟨id, hash, data, rfl, r, hr, rfl, hhash, hopen, hrow⟩ | ⟨_, _, s, _, hs, hhash, _⟩
  · obtain ⟨token, _, _, hk, rfl, -⟩ := hproc.claim r.id hash data _ rfl
    obtain rfl : sg.token = token := (Kont.claimed.inj hk).1
    exact ⟨r, hr, data, rfl, hhash, hopen, hrow⟩
  · rw [hw.legacy s hs] at hhash
    cases hhash

theorem used_commit {w : World} {write : Write} {k : Kont} {t : Nat} :
    Used (w.commit write k) t ↔ (∃ sg ∈ write.signings k w.db, sg.token = t) ∨ Used w t := by
  simp [Used, World.commit]

/-! ## A commit -/

/-- Every link stands in one row. -/
def Db.Distinct (db : Db) : Prop :=
  ∀ r ∈ db.recipients, ∀ q ∈ db.recipients,
    r.signingTokenHash = q.signingTokenHash → r.signingTokenHash ≠ none → r.id = q.id

/-- Two rows with one link after a commit are one row: a new link is fresh, and under one row only. -/
theorem Db.Distinct.write {db : Db} {write : Write} (h : db.Distinct)
    (hfresh : ∀ id t, (id, t) ∈ write.links → ∀ r ∈ db.recipients, r.signingTokenHash ≠ some (.sha256 t))
    (hown : ∀ id id' t, (id, t) ∈ write.links → (id', t) ∈ write.links → id = id') :
    (db.write write).Distinct := by
  intro r' hr' q' hq' heq hsome
  obtain ⟨r, hr, rfl⟩ := exists_of_mem_write hr'
  obtain ⟨q, hq, rfl⟩ := exists_of_mem_write hq'
  rw [onRecipient_id, onRecipient_id]
  rcases onRecipient_hash write r with hr₁ | hr₁ | ⟨t, hlink, hr₁⟩
  · rcases onRecipient_hash write q with hq₁ | hq₁ | ⟨t', hlink', hq₁⟩
    · -- Both links are old.
      rw [hr₁] at heq hsome
      rw [hq₁] at heq
      exact h r hr q hq heq hsome
    · rw [hq₁] at heq
      exact absurd heq hsome
    · -- A new link is no old one.
      rw [hr₁, hq₁] at heq
      exact absurd heq (hfresh _ _ hlink' r hr)
  · exact absurd hr₁ hsome
  · rcases onRecipient_hash write q with hq₁ | hq₁ | ⟨t', hlink', hq₁⟩
    · rw [hr₁, hq₁] at heq
      exact absurd heq.symm (hfresh _ _ hlink q hq)
    · rw [hr₁, hq₁] at heq
      cases heq
    · -- Both are new: the commit stores each of its tokens under one row.
      rw [hr₁, hq₁] at heq
      obtain rfl := TokenHash.sha256.inj (Option.some.inj heq)
      exact hown _ _ _ hlink hlink'

/-- The token of a signature is no longer the link of an open row. -/
private theorem links_unused {w : World} {write : Write} {k : Kont} (hroles : Roles w.db)
    (hwrite : WriteRoles w.db write) (hw : Links w)
    (hproc : ProcLinks w (.writing write k)) :
    ∀ r ∈ (w.db.write write).recipients, r.open_ = true → ∀ t, r.signingTokenHash = some (.sha256 t) →
      ¬ Used (w.commit write k) t := by
  intro r' hr' hopen t ht
  obtain ⟨r, hr, rfl⟩ := exists_of_mem_write hr'
  have hactivates : ∀ id ∈ write.activates, id = r.id → r.role = .cc := fun id hid heq =>
    hwrite.activates id hid r hr heq.symm
  rw [used_commit, not_or]
  rcases open_of_onRecipient (fun hcc => (hroles.cc r hr hcc).1) hactivates hopen ht with
    ⟨hwas, hhash⟩ | hlink
  · refine ⟨?_, hw.unused r hr hwas t hhash⟩
    rintro ⟨sg, hsg, rfl⟩
    -- The row under the link just used is this one, and it is completed now.
    obtain ⟨q, hq, data, rfl, hqhash, hqopen, -⟩ := signing_of_commit hw hproc hsg
    have hid : r.id = q.id := hw.distinct r hr q hq (by rw [hhash, hqhash]) (by simp [hhash])
    obtain rfl := eq_of_key_eq hroles.ids hr hq hid
    rw [Recipient.open_iff, (onRecipient_claimed hqhash hqopen data).2.2] at hopen
    simp at hopen
  · have hfresh := hproc.fresh write k rfl _ _ hlink
    refine ⟨?_, hfresh.unused⟩
    rintro ⟨sg, hsg, rfl⟩
    obtain ⟨q, hq, data, rfl, hqhash, -⟩ := signing_of_commit hw hproc hsg
    exact hfresh.unstored q hq hqhash

/-- A commit makes one submit successful at most, and with a token that made none before. -/
private theorem links_once {w : World} {write : Write} {k : Kont} (hw : Links w)
    (hproc : ProcLinks w (.writing write k)) :
    ((w.commit write k).signings.map Signing.token).Nodup := by
  show ((write.signings k w.db ++ w.signings).map Signing.token).Nodup
  rw [List.map_append, List.nodup_append']
  refine ⟨?_, hw.once, ?_⟩
  · have hlength := length_signings_le write k w.db
    match hlist : write.signings k w.db with
    | [] => simp
    | [sg] => simp
    | _ :: _ :: _ =>
        rw [hlist] at hlength
        simp at hlength
  · intro t hnew hold
    obtain ⟨sg, hsg, rfl⟩ := List.mem_map.mp hnew
    obtain ⟨q, hq, -, -, hqhash, hqopen, -⟩ := signing_of_commit hw hproc hsg
    exact hw.unused q hq hqopen _ hqhash hold

theorem links_commit {w : World} {write : Write} {k : Kont} (hroles : Roles w.db)
    (hwrite : WriteRoles w.db write) (hw : Links w) (hproc : ProcLinks w (.writing write k)) :
    Links (w.commit write k) where
  minted := by
    intro r' hr' t ht
    rcases stored_of_write hr' ht with ⟨r, hr, hhash⟩ | hlink
    · exact hw.minted r hr t hhash
    · exact (hproc.fresh write k rfl _ _ hlink).minted
  distinct := Db.Distinct.write hw.distinct
    (fun id t hlink => (hproc.fresh write k rfl id t hlink).unstored) (hproc.own write k rfl)
  unused := links_unused hroles hwrite hw hproc
  used := by
    intro t ht
    rcases used_commit.mp ht with ⟨sg, hsg, rfl⟩ | hold
    · obtain ⟨q, hq, -, -, hqhash, -⟩ := signing_of_commit hw hproc hsg
      exact hw.minted q hq _ hqhash
    · exact hw.used t hold
  once := links_once hw hproc
  legacy := by
    intro row' hrow'
    obtain ⟨row, hrow, rfl⟩ := exists_of_write_request hrow'
    rw [onRequest_signingTokenHash]
    exact hw.legacy row hrow
  consent := by
    intro r' hr' c hc
    obtain ⟨r, hr, rfl⟩ := exists_of_mem_write hr'
    rcases onRecipient_consentAt write r with hsame | ⟨-, now, hwr, hnew⟩
    · rw [hsame] at hc
      exact hw.consent r hr c hc
    · rw [hnew] at hc
      obtain rfl := Option.some.inj hc
      exact hproc.consent r.id now k (by rw [hwr]; rfl)
  proper := by
    intro sg hsg
    rcases List.mem_append.mp hsg with hnew | hold
    · obtain ⟨r, hr, data, rfl, hhash, hopen, hrow⟩ := signing_of_commit hw hproc hnew
      obtain ⟨-, -, -, -, -, c, hle, hconsented⟩ := hproc.claim _ _ data k rfl
      obtain ⟨hconsent, hcompleted, -⟩ := onRecipient_claimed hhash hopen data
      refine ⟨r, _, c, data.completedAt, hrow, hhash, ?_, hcompleted, hle⟩
      rw [hconsent]
      exact hconsented r hr rfl
    · exact hw.proper sg hold

/-- The others keep what they have in hand. -/
theorem ProcLinks.commit {w : World} {l : Proc} (h : ProcLinks w l) {write : Write} {k : Kont}
    (hw : Links w) (hproc : ProcLinks w (.writing write k)) (hapart : Apart (.writing write k) l) :
    ProcLinks (w.commit write k) l where
  loaded token visit req hl := by
    obtain ⟨id, hid, hhash, hconsent⟩ := h.loaded token visit req hl
    exact ⟨id, hid, hhash, fun c hc => ⟨(hconsent c hc).1, (hconsent c hc).2.write write⟩⟩
  claim id hash data k' hl := by
    obtain ⟨token, documentName, now, hk, hhash, c, hle, hc⟩ := h.claim id hash data k' hl
    exact ⟨token, documentName, now, hk, hhash, c, hle, hc.write write⟩
  consent := h.consent
  fresh write' k' hl id token hlink := by
    have hfresh := h.fresh write' k' hl id token hlink
    refine ⟨hfresh.minted, ?_, ?_⟩
    · rw [used_commit, not_or]
      refine ⟨?_, hfresh.unused⟩
      rintro ⟨sg, hsg, rfl⟩
      obtain ⟨q, hq, -, -, hqhash, -⟩ := signing_of_commit hw hproc hsg
      exact hfresh.unstored q hq hqhash
    · intro r' hr' hstored
      rcases stored_of_write hr' hstored with ⟨r, hr, hhash⟩ | hlink'
      · exact hfresh.unstored r hr hhash
      · exact hapart write k write' k' rfl hl _ _ _ hlink' hlink
  own := h.own

/-- After its commit a process has nothing in hand. -/
theorem ProcLinks.after (w : World) (k : Kont) (write : Write) (db : Db) :
    ProcLinks w (k.after write db) where
  loaded token visit req hl := absurd hl (k.after_ne_loaded write db token visit req)
  claim id hash data k' hl := by
    rw [Kont.pending_after] at hl
    cases hl
  consent id now k' hl := by
    rw [Kont.pending_after] at hl
    cases hl
  fresh write' k' hl := by
    rw [Kont.pending_after] at hl
    cases hl
  own write' k' hl := by
    rw [Kont.pending_after] at hl
    cases hl

/-! ## Every other step -/

theorem Links.same {w w' : World} (h : Links w) (hsame : SameRows w w') (hnow : w.now ≤ w'.now) :
    Links w' where
  minted r hr t ht := by
    rw [hsame.db] at hr
    exact lt_of_lt_of_le (h.minted r hr t ht) hsame.minted
  distinct := by
    rw [hsame.db]
    exact h.distinct
  unused := by
    unfold Used
    rw [hsame.db, hsame.signings]
    exact h.unused
  used t ht := by
    unfold Used at ht
    rw [hsame.signings] at ht
    exact lt_of_lt_of_le (h.used t ht) hsame.minted
  once := by
    rw [hsame.signings]
    exact h.once
  legacy := by
    rw [hsame.db]
    exact h.legacy
  consent r hr c hc := by
    rw [hsame.db] at hr
    exact le_trans (h.consent r hr c hc) hnow
  proper := by
    rw [hsame.signings]
    exact h.proper

theorem Fresh.same {w w' : World} {token : Nat} (h : Fresh w token) (hsame : SameRows w w') :
    Fresh w' token where
  minted := lt_of_lt_of_le h.minted hsame.minted
  unused := by
    unfold Used
    rw [hsame.signings]
    exact h.unused
  unstored := by
    rw [hsame.db]
    exact h.unstored

theorem ProcLinks.same {w w' : World} {l : Proc} (h : ProcLinks w l) (hsame : SameRows w w')
    (hnow : w.now ≤ w'.now) : ProcLinks w' l where
  loaded token visit req hl := by
    obtain ⟨id, hid, hhash, hconsent⟩ := h.loaded token visit req hl
    refine ⟨id, hid, hhash, fun c hc => ⟨le_trans (hconsent c hc).1 hnow, ?_⟩⟩
    rw [hsame.db]
    exact (hconsent c hc).2
  claim id hash data k hl := by
    rw [hsame.db]
    exact h.claim id hash data k hl
  consent id now k hl := le_trans (h.consent id now k hl) hnow
  fresh write k hl id token hlink := (h.fresh write k hl id token hlink).same hsame
  own := h.own

theorem Prepares.consent {cfg : Config} {w : World} {l : Proc} {id : Nat} {now : Int} {k : Kont}
    {minted : Nat} (h : Prepares cfg w l (.consented id now) k minted) : now = w.now := by
  generalize hwrite : Write.consented id now = write at h
  cases h with
  | consented token req _ hconsent =>
      unfold LoadedRequest.consentWrite at hwrite
      split at hwrite
      · exact (Write.consented.inj hwrite).2
      · cases hwrite
  | viewed token ip ua req =>
      unfold LoadedRequest.viewWrite at hwrite
      split at hwrite <;> cases hwrite
  | claimed token dto ip ua req data hdata =>
      unfold LoadedRequest.claimWrite at hwrite
      split at hwrite <;> cases hwrite
  | _ => cases hwrite

/-- What a process takes in hand is in order; `w'` is the world with the tokens minted. -/
theorem ProcLinks.ready {cfg : Config} {w w' : World} {l l' : Proc} (hroles : Roles w.db) (hw : Links w)
    (h : ProcLinks w l) (hready : Readies cfg w l w' l') : ProcLinks w' l' where
  loaded token visit req hl := by
    have hnow := hready.now
    cases hready.loaded token visit req hl with
    | recipient row rc hrc hhash hopen =>
        refine ⟨rc.id, rfl, rfl, fun c hc => ⟨?_, ?_⟩⟩
        · rw [hnow]
          exact hw.consent rc hrc c hc
        · rw [hready.same.db]
          intro r hr hid
          rw [eq_of_key_eq hroles.ids hr hrc hid]
          exact hc
    | legacy row hrow hhash =>
        rw [hw.legacy row hrow] at hhash
        cases hhash
  claim id hash data k hl := by
    obtain ⟨token, visit, req, rfl, hid, hhash, hconsent, hcompleted, documentName, now, hk⟩ :=
      (hready.pending _ k hl).claim
    obtain ⟨id', hid', hhash', hc⟩ := h.loaded token visit req rfl
    obtain rfl : id = id' := Option.some.inj (hid.symm.trans hid')
    obtain ⟨c, hconsentAt⟩ := Option.ne_none_iff_exists'.mp hconsent
    refine ⟨token, documentName, now, hk, hhash.symm.trans hhash', c, ?_, ?_⟩
    · rw [hcompleted]
      exact (hc c hconsentAt).1
    · rw [hready.same.db]
      exact (hc c hconsentAt).2
  consent id now k hl := by
    rw [(hready.pending _ k hl).consent, hready.now]
  fresh write k hl id token hlink := by
    obtain ⟨hge, hlt, -⟩ := (hready.pending write k hl).link hlink
    refine ⟨hlt, ?_, ?_⟩
    · unfold Used
      rw [hready.same.signings]
      intro hused
      have := hw.used token hused
      omega
    · rw [hready.same.db]
      intro r hr hstored
      have := hw.minted r hr token hstored
      omega
  own write k hl id id' token hlink hlink' := (hready.pending write k hl).link_inj hlink hlink'

/-- The tokens a process takes in hand are newer than all others. -/
theorem apart_of_ready {cfg : Config} {w w' : World} {l l' other : Proc}
    (hready : Readies cfg w l w' l')
    (hother : ∀ write k, other.pending = some (write, k) → ∀ id token, (id, token) ∈ write.links →
      token < w.minted) : Apart l' other ∧ Apart other l' := by
  have hnew : ∀ write k write' k', l'.pending = some (write, k) → other.pending = some (write', k') →
      ∀ id id' token, (id, token) ∈ write.links → (id', token) ∈ write'.links → False := by
    intro write k write' k' hl hl' id id' token hlink hlink'
    obtain ⟨hge, -, -⟩ := (hready.pending write k hl).link hlink
    have := hother write' k' hl' id' token hlink'
    omega
  refine ⟨fun write k write' k' hl hl' id id' token hlink hlink' =>
    hnew write k write' k' hl hl' id id' token hlink hlink', ?_⟩
  intro write k write' k' hl hl' id id' token hlink hlink'
  exact hnew write' k' write k hl' hl id' id token hlink' hlink

/-- After a commit a process has no token in hand. -/
theorem apart_after (k : Kont) (write : Write) (db : Db) (l : Proc) :
    Apart (k.after write db) l ∧ Apart l (k.after write db) := by
  constructor
  · intro write' k' _ _ hl'
    rw [Kont.pending_after] at hl'
    cases hl'
  · intro _ _ write' k' _ hl'
    rw [Kont.pending_after] at hl'
    cases hl'

/-! ## Every run -/

/-- The clock does not go backwards. -/
def clockForward (s : System World Proc) (l : Label Choice Event) : Bool :=
  match l with
  | .env (.clock now) => decide (s.shared.now ≤ now)
  | _ => true

/-- The side condition of the outline: the clock goes forward and only signers hold links. -/
def ForwardRoles (s : System World Proc) (l : Label Choice Event) : Prop :=
  clockForward s l = true ∧
    Holds (fun w : World => Roles w.db) (fun w _ l => ProcRoles w l) (fun _ _ => True) s

theorem linksOutline (cfg : Config) :
    ProofOutline (service cfg) ForwardRoles Links (fun w _ l => ProcLinks w l) Apart where
  act := by
    intro s p c sh l hs hok hact
    have hroles := hok.2.shared
    rcases act_spec (p := p) hact with ⟨write, k, hl, -, rfl, rfl⟩ | hready
    · have hown := hs.proc p
      rw [hl] at hown
      have hwrite := (hok.2.proc p).pending write k (by rw [hl]; rfl)
      refine ⟨links_commit hroles hwrite hs.shared hown, ProcLinks.after _ k write _,
        fun q hq => ?_, fun q _ => apart_after k write _ _⟩
      have hapart := hs.pair p q hq.symm
      rw [hl] at hapart
      exact (hs.proc q).commit hs.shared hown hapart
    · have hnow : s.shared.now ≤ sh.now := le_of_eq hready.now.symm
      exact ⟨hs.shared.same hready.same hnow, ProcLinks.ready hroles hs.shared (hs.proc p) hready,
        fun q _ => (hs.proc q).same hready.same hnow, fun q _ => apart_of_ready hready
          fun write k hl id token hlink => ((hs.proc q).fresh write k hl id token hlink).minted⟩
  env := by
    intro s e sh hs hok henv
    have hnow : s.shared.now ≤ sh.now := by
      cases e with
      | clock now =>
          obtain rfl := Option.some.inj henv
          exact of_decide_eq_true hok.1
      | processed id =>
          obtain rfl := Option.some.inj henv
          exact le_refl _
    have hsame := env_spec henv
    exact ⟨hs.shared.same hsame hnow, fun q => (hs.proc q).same hsame hnow⟩

theorem linksHolds_start {input : SendRequest} {s : Sending} (h : NewEnvelope input s.minted s.db)
    (now : Int) : Holds Links (fun w _ l => ProcLinks w l) Apart (start s now) where
  shared :=
    { minted := by
        intro r hr t ht
        by_cases hi : Invited input r
        · obtain ⟨-, t', hlt, hhash⟩ := h.invited r hr hi
          rw [hhash] at ht
          obtain rfl := TokenHash.sha256.inj (Option.some.inj ht)
          exact hlt
        · rw [(h.waiting r hr hi).2] at ht
          cases ht
      distinct := fun r hr q hq heq hsome => by rw [h.distinct r hr q hq heq hsome]
      unused := fun r hr hopen t ht hused => by cases hused
      used := fun t ht => by cases ht
      once := List.nodup_nil
      legacy := by
        intro row hrow
        obtain ⟨row', hrow', -, -, hnone⟩ := h.request
        obtain rfl : row' = row := Option.some.inj (hrow'.symm.trans hrow)
        exact hnone
      consent := by
        intro r hr c hc
        rw [h.blank r hr] at hc
        cases hc
      proper := fun sg hsg => by cases hsg }
  proc p := by
    simp only [start]
    split <;> exact ⟨by simp, by simp [Proc.pending], by simp [Proc.pending], by simp [Proc.pending],
      by simp [Proc.pending]⟩
  pair p q _ := by
    intro write k _ _ hl
    simp only [start] at hl
    split at hl <;> cases hl

/-- **A link signs at most once, and only after consent.** -/
theorem link_signs_once {cfg : Config} {template : Option Template} {input : SendRequest}
    {senderName : Option JsString} {now : Int} {sending : Sending}
    (hinput : SendRequestSchema cfg.platform input = true)
    (hsend : send cfg template input senderName now = .ok sending) {s : System World Proc}
    (hs : Reaches (service cfg) (fun s l => clockForward s l = true) (start sending now) s) :
    (s.shared.signings.map Signing.token).Nodup ∧
    ∀ sg ∈ s.shared.signings, ∃ before after consented completed, sg.row = .recipient before after ∧
      before.signingTokenHash = some (.sha256 sg.token) ∧ after.consentAt = some consented ∧
      after.completedAt = some completed ∧ consented ≤ completed := by
  have hnew := send_spec hinput hsend
  have hrun := Reaches.strengthen (rolesOutline cfg _).holds_step hs (rolesHolds_start hnew now)
  have hholds := (linksOutline cfg).holds_of_reaches hrun (linksHolds_start hnew now)
  exact ⟨hholds.shared.once, hholds.shared.proper⟩

/-- One link used by two submits at once, and sent again while they are under way. -/
theorem link_signs_once_raced :
    let input := exampleInput .parallel [exampleRecipient "a" .signer 1]
    let schedule := exampleConsent 1 0 ++
      exampleCall 2 (.visit 0 (.submit exampleSignature none none)) 4 ++
      .env (.clock 90000) :: exampleCall 3 (.resend 0) 2 ++ exampleClaim 4 0 ++ [.proc 2 .next]
    ∃ s, replayIf clockForward exampleConfig exampleTemplate input 0 schedule = some s ∧
      (s.shared.signings.map Signing.token) = [0] ∧
      ∀ sg ∈ s.shared.signings, ∃ before after consented completed, sg.row = .recipient before after ∧
        before.signingTokenHash = some (.sha256 sg.token) ∧ after.consentAt = some consented ∧
        after.completedAt = some completed ∧ consented ≤ completed := by
  intro input schedule
  have hrun : (replayIf clockForward exampleConfig exampleTemplate input 0 schedule).map (fun s =>
      s.shared.signings.map Signing.token) = some [0] := by
    decide +kernel
  obtain ⟨s, hs, htokens⟩ := Option.map_eq_some_iff.mp hrun
  obtain ⟨sending, hsend, hreaches⟩ := replayIf_spec hs
  exact ⟨s, hs, htokens, (link_signs_once (by decide +kernel) hsend hreaches).2⟩

end ESignSoft.Envelope
