import ESignSoft.Envelope.Roles

/-!
# The history of signatures

A claim that reports one row is a successful submit and is recorded with the row before and after.

* `mem_signings` — what a commit adds to the history;
* `signed_of_completed` — a commit that completes a row records its signature.
-/

namespace ESignSoft.Envelope

open ESignSoft.Lib.JsText ESignSoft.Lib.Table ESignSoft.Lib.Interleaving
open ESignSoft.Contracts ESignSoft.Signing

/-- The recipient has made a successful submit. -/
def Signed (w : World) (id : Nat) : Prop :=
  ∃ sg ∈ w.signings, ∃ before after, sg.row = .recipient before after ∧ before.id = id

theorem Signed.commit {w : World} {id : Nat} (h : Signed w id) (write : Write) (k : Kont) :
    Signed (w.commit write k) id := by
  obtain ⟨sg, hsg, hrow⟩ := h
  exact ⟨sg, List.mem_append_right _ hsg, hrow⟩

theorem Signed.same {w w' : World} {id : Nat} (h : Signed w id) (hsame : SameRows w w') :
    Signed w' id := by
  unfold Signed
  rw [hsame.signings]
  exact h

/-- With distinct ids a claim rewrites one row at most. -/
theorem count_claimed {db : Db} (hids : (db.recipients.map Recipient.id).Nodup) {r : Recipient}
    (hr : r ∈ db.recipients) {hash : TokenHash} (hhash : r.signingTokenHash = some hash)
    (hopen : r.open_ = true) (data : ClaimData) :
    (Write.claimed r.id hash data).count db = 1 := by
  have hle := matchCount_key_le_one hids r.id fun q => q.signingTokenHash == some hash && q.open_
  have hpos : 0 < (Write.claimed r.id hash data).count db :=
    matchCount_pos_of_mem hr (by simp [hhash, hopen])
  have hcount : (Write.claimed r.id hash data).count db =
      matchCount (fun q => decide (q.id = r.id) && (q.signingTokenHash == some hash && q.open_))
        db.recipients := by
    show matchCount (fun q : Recipient => q.id == r.id && q.signingTokenHash == some hash && q.open_) _ = _
    congr 1
    funext q
    rw [Bool.and_assoc, beq_eq_decide]
  omega

/-- What a commit records: a row that held the presented hash and was open, and the row it became. -/
theorem mem_signings {write : Write} {k : Kont} {db : Db} {sg : Signing}
    (h : sg ∈ write.signings k db) :
    (∃ documentName now, k = .claimed sg.token documentName now) ∧
    ((∃ id hash data, write = .claimed id hash data ∧ ∃ r ∈ db.recipients, r.id = id ∧
        r.signingTokenHash = some hash ∧ r.open_ = true ∧
        sg.row = .recipient r (write.onRecipient r)) ∨
      ∃ hash data s, write = .claimedLegacy hash data ∧ db.request = some s ∧
        s.signingTokenHash = some hash ∧ sg.row = .legacy s (write.onRequest s)) := by
  unfold Write.signings at h
  split at h
  · rename_i token documentName now
    split at h
    · obtain ⟨row, hrow, rfl⟩ := List.mem_map.mp h
      refine ⟨⟨documentName, now, rfl⟩, ?_⟩
      unfold Write.signedRows at hrow
      split at hrow
      · rename_i id hash data _
        obtain ⟨r, hr, rfl⟩ := List.mem_map.mp hrow
        obtain ⟨hmem, hcond⟩ := List.mem_filter.mp hr
        simp only [Bool.and_eq_true, beq_iff_eq] at hcond
        exact Or.inl ⟨id, hash, data, rfl, r, hmem, hcond.1.1, hcond.1.2, hcond.2, rfl⟩
      · rename_i hash data _
        obtain ⟨s, hs, rfl⟩ := List.mem_map.mp hrow
        obtain ⟨hmem, hcond⟩ := List.mem_filter.mp hs
        simp only [Bool.and_eq_true, beq_iff_eq] at hcond
        exact Or.inr ⟨hash, data, s, rfl, Option.mem_toList.mp hmem, hcond.1, rfl⟩
      · cases hrow
    · cases h
  · cases h

/-- Completing a row is a successful submit. -/
theorem signed_of_completed {w : World} {write : Write} {k : Kont} {r : Recipient}
    (hids : (w.db.recipients.map Recipient.id).Nodup) (hr : r ∈ w.db.recipients)
    (hk : ∀ id hash data, write = .claimed id hash data →
      ∃ token documentName now, k = .claimed token documentName now)
    (hold : r.status = .completed → Signed w r.id)
    (h : (write.onRecipient r).status = .completed) : Signed (w.commit write k) r.id := by
  rcases onRecipient_completed h with hcompleted | ⟨hash, data, rfl, hhash, hopen⟩
  · exact (hold hcompleted).commit write k
  · obtain ⟨token, documentName, now, rfl⟩ := hk _ _ _ rfl
    have hcount := count_claimed hids hr hhash hopen data
    refine ⟨⟨token, .recipient r ((Write.claimed r.id hash data).onRecipient r)⟩,
      List.mem_append_left _ ?_, r, _, rfl, rfl⟩
    unfold Write.signings
    simp only [hcount, if_true]
    refine List.mem_map.mpr ⟨_, ?_, rfl⟩
    unfold Write.signedRows
    exact List.mem_map.mpr ⟨r, List.mem_filter.mpr ⟨hr, by simp [hhash, hopen]⟩, rfl⟩

end ESignSoft.Envelope
