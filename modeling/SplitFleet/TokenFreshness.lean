import SplitFleet.SuffixRuns

set_option autoImplicit false

namespace SplitFleet.TokenFreshness

open Lib RequestGroup SuffixService SuffixInvariant SuffixRuns

variable {π : Type} {req : ℕ → Request π} {w : World π}

/-- The tokens that open a round were issued in it, and what was done with a token was done for the
client that it was issued to, in the round that it was issued in and before `reconcile` returned. -/
structure Fresh (w : World π) : Prop where
  issued : ∀ cid token, w.tokens.get? cid = some token → w.issuedTo token = some (cid, w.epoch)
  effects : ∀ e ∈ w.effects, EffectOk w e
  kept : ∀ token x, w.issuedTo token = some x → ∀ cids roundId mapping,
    (w.prepareRound cids roundId mapping).issuedTo token = some x
  /-- A token of an earlier round, or of a round that is over, opens nothing. -/
  expired : ∀ token c epoch, w.issuedTo token = some (c, epoch) → (epoch ≠ w.epoch ∨ w.openRound = false) →
    ∀ cid, w.tokens.get? cid ≠ some token

theorem fresh (hw : Reachable req w) : Fresh w := by
  have h := reachable_inv hw
  refine ⟨fun cid token hget ↦ (h.tokens cid token hget).1, h.effects,
    fun token x hissued cids roundId mapping ↦ issuedTo_prepareRound h hissued cids roundId mapping,
    fun token c epoch hissued hold cid hget ↦ ?_⟩
  obtain ⟨hissued', hopen, -⟩ := h.tokens cid token hget
  cases hissued.symm.trans hissued'
  rcases hold with hne | hclosed
  · exact hne rfl
  · cases hopen.symm.trans hclosed

def acquiring (t : ℕ) : Request ℕ := ⟨"a", .virtualAcquire, some 0, t, none, none⟩

/-- A client acquires its replica, the round ends, and its token is used again in the next round. -/
def staleToken : List Action :=
  [.prepareRound ["a"] 1 (Dict.ofList [("a", "s")]), .resume 0 "", .resume 0 "", .resume 0 "", .resume 0 "",
    .resume 0 "", .work 0 true, .work 0 true, .work 0 true, .work 0 true, .resume 0 "",
    .reconcile "", .reconcile "", .reconcile "", .reconcile "s", .reconcile "", .work 1 true, .work 1 true,
    .work 1 true, .reconcile "", .reconcile "", .prepareRound ["a"] 2 (Dict.ofList [("a", "s")]), .resume 1 ""]

theorem staleToken_fresh : ∃ w, run acquiring (.start 1 1 false) staleToken = some w ∧
    w.epoch = 2 ∧ w.tokens.get? "a" = some 1 ∧ w.pcs 1 = .abort ∧ w.effects.length = 3 ∧ Fresh w :=
  ⟨_, rfl, rfl, rfl, rfl, rfl, @fresh ℕ acquiring _ (reachable_run (.start 1 1 false) staleToken rfl)⟩

end SplitFleet.TokenFreshness
