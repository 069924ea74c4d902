import OpsCli.Command.Binding

/-!
# Exact readings

A fixed word matches a word exactly if both are the same.  A reading is exact
if every word that is matched by a fixed word equals it.
-/

namespace OpsCli.Command.ExactReading

open CLib.CString Token WordMatch Reading Choice List

/-! ## Fixed words -/

/-- A fixed word: neither a variable nor a range, an address, a vararg or an
option. -/
def isFixed (cmd : CStr) : Bool :=
  cmd ≠ [] && !cmdVararg cmd && !cmdOption cmd && !cmdVariable cmd

variable {env : MatchEnv} {token : Terminal}

theorem cmdWordMatchText_fixed {cmd : CStr} (fixed : isFixed cmd)
    (filter : FilterType) (word : CStr) :
    cmdWordMatchText env cmd filter word = some (fixedWordMatch filter cmd word) := by
  simp only [isFixed, Bool.and_eq_true, Bool.not_eq_true', decide_eq_true_eq] at fixed
  obtain ⟨⟨⟨notEmpty, notVararg⟩, notOption⟩, notVariable⟩ := fixed
  have notRange : cmdRange cmd = false := by
    cases cmd with
    | nil => rfl
    | cons c rest =>
      by_contra range
      simp only [cmdRange, head?_cons, Option.some.injEq, Bool.not_eq_false,
        decide_eq_true_eq] at range
      subst range
      cases notVariable
  have notText {text : CStr} (upper : cmdVariable text) : decide (cmd = text) = false := by
    refine decide_eq_false ?_
    rintro rfl
    cases notVariable.symm.trans upper
  have notIfname : cmdIfname cmd = false := by
    cases cmd with
    | nil => exact absurd rfl notEmpty
    | cons c rest =>
      by_contra isPrefix
      rw [Bool.not_eq_false, cmdIfname, isPrefixOf_iff_prefix] at isPrefix
      obtain ⟨after, same⟩ := isPrefix
      cases (cons_eq_cons.mp same).1
      cases notVariable
  have notIpv6 : cmdIpv6 cmd = false := notText rfl
  have notIpv6Prefix : cmdIpv6Prefix cmd = false := notText rfl
  have notIpv4 : cmdIpv4 cmd = false := notText rfl
  have notIpv4Prefix : cmdIpv4Prefix cmd = false := notText rfl
  have notIpv4Netmask : cmdIpv4Netmask cmd = false := notText rfl
  have notPort : cmdPort cmd = false := notText rfl
  have notVlan : cmdVlan cmd = false := notText rfl
  have notMac : cmdMac cmd = false := notText rfl
  simp only [cmdWordMatchText, notVararg, notRange, notIpv6, notIpv6Prefix, notIpv4, notIpv4Prefix,
    notIpv4Netmask, notIfname, notPort, notVlan, notMac,
    notOption, notVariable, Bool.or_self, Bool.false_eq_true, if_false]

theorem cmdWordMatch_self (fixed : isFixed token.cmd) :
    cmdWordMatch env token .relaxed (some token.cmd) = some .exactMatch := by
  have notEmpty : token.cmd ≠ [] := by
    intro empty
    rw [empty] at fixed
    cases fixed
  have answer : cmdWordMatchText env token.cmd .relaxed token.cmd = some .exactMatch := by
    have begins := isPrefixOf_iff_prefix.mpr (prefix_refl token.cmd)
    rw [cmdWordMatchText_fixed fixed, fixedWordMatch, if_pos begins, if_pos rfl]
  cases text : token.cmd with
  | nil => exact absurd text notEmpty
  | cons c rest =>
    rw [text] at answer
    simpa only [cmdWordMatch, text] using answer

theorem word_of_exactMatch {word : Word} (fixed : isFixed token.cmd)
    (answer : cmdWordMatch env token .relaxed word = some .exactMatch) : word = some token.cmd := by
  unfold cmdWordMatch at answer
  split at answer
  · cases answer
  · cases answer
  · cases answer
  · rename_i text _ _
    rw [cmdWordMatchText_fixed fixed, fixedWordMatch, Option.some.injEq] at answer
    split at answer
    · split at answer
      · rename_i same
        rw [same]
      · cases answer
    · cases answer

/-! ## Exact readings -/

/-- A word that is matched by a fixed word equals it. -/
def WordExact (token : Terminal) (word : Word) : Prop :=
  isFixed token.cmd → word = some token.cmd

section

variable (env : MatchEnv)

/-- A terminal or the chosen alternative of a multiple is matched
exactly. -/
def ArgExact : ArgReading → Prop
  | .terminal token word => WordExact token word
  | .multiple alternatives word =>
    ∀ chosen, bestOffer (offers env .relaxed alternatives word) =
      some chosen → WordExact chosen.1 word
  | .option _ _ _ => True
  | .missing _ => True
  | .vararg _ _ _ => True

/-- Every word that a token takes is matched exactly. -/
def TokenExact : TokenReading → Prop
  | .arg reading => ArgExact env reading
  | .keyword parts uses =>
    ∀ use ∈ uses, (∀ part, parts[use.index]? = some part → WordExact part.keyword use.word) ∧
      ∀ reading ∈ use.args, ArgExact env reading

/-- Wherever tokens are offered, one of them matches exactly. -/
def Covered (list : List (List Offer)) : Prop :=
  ∀ offered ∈ list, offered = [] ∨ ∃ offer ∈ offered, offer.2 = .exactMatch

variable {env} {words rest : List Word}

theorem argExact_of_covered {arg : KeywordArg} {reading : ArgReading}
    (reads : ReadsArg env .relaxed arg words reading rest)
    (covered : Covered (reading.wordOffers env .relaxed)) : ArgExact env reading := by
  cases reads with
  | @terminal token word _ _ _ matched =>
    intro fixed
    obtain ⟨type, answer, different⟩ := matched
    have member : (token, type) ∈ offers env .relaxed [token] word :=
      mem_offers.mpr ⟨mem_singleton_self _, answer, different⟩
    rcases covered _ mem_cons_self with none | ⟨offer, found, same⟩
    · rw [none] at member
      cases member
    · obtain ⟨single, answer, _⟩ := mem_offers.mp found
      rw [mem_singleton.mp single, same] at answer
      exact word_of_exactMatch fixed answer
  | option => trivial
  | missing => trivial
  | vararg => trivial
  | multiple _ =>
    intro chosen best fixed
    obtain ⟨member, strongest⟩ := bestOffer_spec best
    rcases covered _ mem_cons_self with none | ⟨offer, found, same⟩
    · rw [none] at member
      cases member
    · have above := strongest offer found
      rw [same] at above
      obtain ⟨_, answer, _⟩ := mem_offers.mp member
      rw [le_antisymm (MatchType.le_exactMatch _) above] at answer
      exact word_of_exactMatch fixed answer

theorem Covered.append {first second : List (List Offer)} (covered : Covered (first ++ second)) :
    Covered first ∧ Covered second :=
  ⟨fun offered member => covered offered (mem_append_left _ member),
    fun offered member => covered offered (mem_append_right _ member)⟩

theorem argsExact_of_covered {list : List KeywordArg} {readings : List ArgReading}
    (reads : ReadsArgs env .relaxed list words readings rest)
    (covered : Covered (readings.flatMap (ArgReading.wordOffers env .relaxed))) :
    ∀ reading ∈ readings, ArgExact env reading := by
  induction reads with
  | nil => exact nofun
  | cons head _ ih =>
    rw [flatMap_cons] at covered
    exact forall_mem_cons.mpr ⟨argExact_of_covered head covered.append.1, ih covered.append.2⟩

theorem usesExact_of_covered {parts : List KeywordPart} {mask : List Nat} {uses : List KeywordUse}
    (reads : ReadsUses env .relaxed parts mask words uses)
    (covered : Covered (usesOffers env .relaxed parts mask uses)) :
    TokenExact env (.keyword parts uses) := by
  induction reads with
  | done => exact nofun
  | use picked found args _ ih =>
    rw [usesOffers, cons_append] at covered
    have later := (Covered.append (fun offered member =>
        covered offered (mem_cons_of_mem _ member)))
    refine forall_mem_cons.mpr ⟨⟨fun part same fixed => ?_,
      argsExact_of_covered args later.1⟩, ih later.2⟩
    obtain ⟨chosen, member, strongest⟩ := pickKeyword_spec picked
    obtain ⟨_, _, ⟨other, otherFound, otherSame⟩, answer, _⟩ := mem_keywordOffers.mp member
    cases same.symm.trans otherFound
    rcases covered _ mem_cons_self with none | ⟨offer, offered, exact⟩
    · have empty := map_eq_nil_iff.mp none
      rw [empty] at member
      cases member
    · obtain ⟨numbered, numberedMember, rfl⟩ := mem_map.mp offered
      have above := strongest numbered numberedMember
      rw [exact] at above
      rw [le_antisymm (MatchType.le_exactMatch _) above, otherSame] at answer
      exact word_of_exactMatch fixed answer

/-- A reading is exact if the offers at every word are covered. -/
theorem tokensExact_of_covered {tokens : List CmdToken} {readings : List TokenReading}
    (reads : ReadsTokens env .relaxed tokens words readings)
    (covered : Covered (readings.flatMap (TokenReading.wordOffers env .relaxed))) :
    ∀ reading ∈ readings, TokenExact env reading := by
  induction reads with
  | nil => exact nofun
  | terminal head _ ih | multiple head _ ih =>
    rw [flatMap_cons] at covered
    exact forall_mem_cons.mpr ⟨argExact_of_covered head covered.append.1, ih covered.append.2⟩
  | keyword head _ ih =>
    rw [flatMap_cons] at covered
    exact forall_mem_cons.mpr ⟨usesExact_of_covered head covered.append.1, ih covered.append.2⟩

end

end OpsCli.Command.ExactReading
