import OpsCli.Command.Reading

/-!
# The token that is chosen for a word

Among the alternatives of a multiple the first of the strongest matches is
chosen, and so it is among the keywords of a group unless there is a tie.
-/

namespace OpsCli.Command.Choice

open Token WordMatch Reading List

/-! ## Offers -/

section

variable {env : MatchEnv} {filter : FilterType} {offer : Offer} {word : Word}

theorem mem_offers {tokens : List Terminal} :
    offer ∈ offers env filter tokens word ↔ offer.1 ∈ tokens ∧
        cmdWordMatch env offer.1 filter word = some offer.2 ∧
        offer.2 ≠ .noMatch := by
  unfold offers
  rw [mem_filterMap]
  constructor
  · rintro ⟨token, member, answer⟩
    split at answer
    · cases answer
    rename_i type found
    split at answer
    · cases answer
    rename_i matched
    cases answer
    exact ⟨member, found, matched⟩
  · rintro ⟨member, answer, matched⟩
    refine ⟨offer.1, member, ?_⟩
    rw [answer]
    dsimp only
    rw [if_neg matched]

theorem mem_keywordOffers {mask : List Nat} {start : Nat} {parts : List KeywordPart} {i : Nat} :
    (i, offer) ∈ keywordOffers env filter mask word start parts ↔ start ≤ i ∧ i ∉ mask ∧
        (∃ part, parts[i - start]? = some part ∧ offer.1 = part.keyword) ∧
        cmdWordMatch env offer.1 filter word = some offer.2 ∧
        offer.2 ≠ .noMatch := by
  induction parts generalizing start with
  | nil => simp [keywordOffers]
  | cons part rest ih =>
    rw [keywordOffers, mem_append, ih]
    constructor
    · rintro (here | ⟨after, unread, ⟨other, found, same⟩, answer⟩)
      · split at here
        · cases here
        rename_i unread
        obtain ⟨found, member, equal⟩ := mem_map.mp here
        cases equal
        obtain ⟨same, answer⟩ := mem_offers.mp member
        refine ⟨le_refl _, unread, ⟨part, ?_, ?_⟩, answer⟩
        · rw [Nat.sub_self]
          rfl
        · exact mem_singleton.mp same
      · refine ⟨by omega, unread, ⟨other, ?_, same⟩, answer⟩
        rw [← found]
        have shift : i - start = i - (start + 1) + 1 := by omega
        rw [shift, getElem?_cons_succ]
    · rintro ⟨after, unread, ⟨other, found, same⟩, answer⟩
      by_cases here : i = start
      · subst here
        rw [Nat.sub_self, getElem?_cons_zero] at found
        cases found
        left
        rw [if_neg unread]
        refine mem_map.mpr ⟨offer, mem_offers.mpr ⟨?_, answer⟩, rfl⟩
        exact mem_singleton.mpr same
      · right
        refine ⟨by omega, unread, ⟨other, ?_, same⟩, answer⟩
        have shift : i - start = i - (start + 1) + 1 := by omega
        rw [shift, getElem?_cons_succ] at found
        exact found

end

/-! ## The best offer -/

theorem better_cases (best : Option Offer) (offer : Offer) :
    (better best offer = some offer ∧ ∀ old ∈ best, old.2 ≤ offer.2) ∨
      ∃ old, best = some old ∧ better best offer = best ∧ offer.2 ≤ old.2 := by
  cases best with
  | none => exact .inl ⟨rfl, nofun⟩
  | some old =>
    rw [better]
    split
    · rename_i improves
      refine .inl ⟨rfl, fun _ same => ?_⟩
      cases same
      exact improves.le
    · rename_i worse
      exact .inr ⟨old, rfl, rfl, not_lt.mp worse⟩

variable {list : List Offer} {chosen : Offer}

theorem foldl_better {best : Option Offer} (result : list.foldl better best = some chosen) :
    (best = some chosen ∨ chosen ∈ list) ∧ (∀ offer ∈ best, offer.2 ≤ chosen.2) ∧
      ∀ offer ∈ list, offer.2 ≤ chosen.2 := by
  induction list generalizing best with
  | nil =>
    cases result
    refine ⟨.inl rfl, fun offer same => ?_, nofun⟩
    cases same
    exact le_refl _
  | cons first rest ih =>
    obtain ⟨origin, before, others⟩ := ih result
    rcases better_cases best first with ⟨later, weaker⟩ | ⟨old, rfl, kept, weaker⟩
    · rw [later] at origin before
      have here := before first rfl
      refine ⟨.inr ?_, fun old held => (weaker old held).trans here,
        forall_mem_cons.mpr ⟨here, others⟩⟩
      rcases origin with same | later
      · cases same
        exact mem_cons_self
      · exact mem_cons_of_mem _ later
    · rw [kept] at origin before
      exact ⟨origin.imp_right (mem_cons_of_mem _), before,
        forall_mem_cons.mpr ⟨weaker.trans (before old rfl), others⟩⟩

theorem bestOffer_spec (result : bestOffer list = some chosen) :
    chosen ∈ list ∧ ∀ offer ∈ list, offer.2 ≤ chosen.2 := by
  obtain ⟨origin, _, others⟩ := foldl_better result
  exact ⟨origin.resolve_left nofun, others⟩

theorem bestOffer_ne_none (nonempty : list ≠ []) : ∃ offer, bestOffer list = some offer := by
  cases list with
  | nil => exact absurd rfl nonempty
  | cons head tail =>
    have kept : ∀ (list : List Offer) (best : Offer),
        ∃ offer, list.foldl better (some best) = some offer := by
      intro list
      induction list with
      | nil => exact fun best => ⟨best, rfl⟩
      | cons offer rest ih =>
        intro best
        rw [foldl_cons, better]
        split <;> exact ih _
    exact kept tail head

/-! ## The keyword that is read -/

/-- The keyword that is read is one of the offers; none is stronger, and no
other is as strong. -/
theorem pickKeyword_strongest {list : List (Nat × Offer)} {found : Option Nat} {best : MatchType}
    {i : Nat} (result : pickKeyword list found best = some (some i)) :
    ∃ type, best ≤ type ∧ (type = best → found = some i) ∧
      (∀ offer ∈ list, offer.2.2 ≤ type ∧ (offer.2.2 = type → offer.1 = i)) ∧
      (type = best ∨ ∃ offer, (i, offer) ∈ list ∧ offer.2 = type) := by
  induction list generalizing found best with
  | nil =>
    cases result
    exact ⟨best, le_refl _, fun _ => rfl, nofun, .inl rfl⟩
  | cons first rest ih =>
    obtain ⟨number, offer⟩ := first
    rw [pickKeyword] at result
    split at result
    · rename_i improves
      obtain ⟨type, above, kept, others, origin⟩ := ih result
      refine ⟨type, improves.le.trans above, fun same => ?_,
        forall_mem_cons.mpr ⟨⟨above, fun same => ?_⟩, others⟩, .inr ?_⟩
      · exact absurd (same ▸ above) (not_le.mpr improves)
      · exact Option.some.inj (kept same.symm)
      · rcases origin with equal | ⟨other, member, equal⟩
        · cases kept equal
          exact ⟨offer, mem_cons_self, equal.symm⟩
        · exact ⟨other, mem_cons_of_mem _ member, equal⟩
    · rename_i worse
      split at result
      · cases result
      rename_i different
      obtain ⟨type, above, kept, others, origin⟩ := ih result
      have below : offer.2 < type := (lt_of_le_of_ne (not_lt.mp worse) different).trans_le above
      refine ⟨type, above, kept, forall_mem_cons.mpr
        ⟨⟨below.le, fun same => absurd same below.ne⟩, others⟩,
        origin.imp_right fun ⟨other, member, equal⟩ => ⟨other, mem_cons_of_mem _ member, equal⟩⟩

theorem pickKeyword_spec {list : List (Nat × Offer)} {i : Nat}
    (result : pickKeyword list none .noMatch = some (some i)) :
    ∃ chosen, (i, chosen) ∈ list ∧ ∀ offer ∈ list, offer.2.2 ≤ chosen.2 := by
  obtain ⟨type, _, kept, others, origin⟩ := pickKeyword_strongest result
  obtain ⟨chosen, member, equal⟩ := origin.resolve_left fun same => nomatch kept same
  exact ⟨chosen, member, fun offer inside => equal ▸ (others offer inside).1⟩

end OpsCli.Command.Choice
