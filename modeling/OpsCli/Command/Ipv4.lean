import OpsCli.Command.Ipv4Scan

/-!
# The words that the IPv4 matchers accept

An address is four numbers from 0 to 255 with dots between them.  The matchers
also accept an address whose first number is missing.  The matchers for a prefix
and for a netmask take slashes between the numbers of the address, up to the
last dot, and the matcher for a prefix reduces the length to 32 bits before it
compares it.
-/

namespace OpsCli.Command.Ipv4

open CLib CString Cells Token Address Ipv4Scan List

/-! ## The grammar -/

/-- A number of an address: one to three digits with a value of at most 255. -/
structure IsField (field : CStr) : Prop where
  numeral : isNumeral field
  sound : Sound field

def IsAddress (word : CStr) : Prop :=
  ∃ a b c d, word = a ++ '.' :: (b ++ '.' :: (c ++ '.' :: d)) ∧
    ∀ field ∈ [a, b, c, d], IsField field

def IsPrefix (word : CStr) : Prop :=
  ∃ address length, word = address ++ '/' :: length ∧ IsAddress address ∧
    isNumeral length ∧ digitsValue length ≤ 32

def IsNetmask (word : CStr) : Prop :=
  ∃ address mask, word = address ++ '/' :: mask ∧ IsAddress address ∧ IsAddress mask

variable {field mask digits : CStr} {rest more : List (Cell Char)} {left : Nat}

theorem isField_iff : IsField field ↔ Digits field ∧ Sound field ∧ field ≠ [] := by
  constructor
  · rintro ⟨numeral, sound⟩
    exact ⟨isdigit_of_isNumeral numeral, sound, ne_nil_of_isNumeral numeral⟩
  · rintro ⟨digits, sound, nonempty⟩
    exact ⟨isNumeral_of_forall nonempty digits, sound⟩

/-! ## Addresses -/

/-- A field and the cells behind it are complete, with so many dots left. -/
def Whole : Nat → CStr → List (Cell Char) → Prop
  | 0, field, [] => Sound field
  | left + 1, field, (c, next) :: cells =>
    Sound field ∧ c = '.' ∧ next ≠ [] ∧ Whole left next cells
  | 0, _, _ :: _ => False
  | _ + 1, _, [] => False

theorem ipv4Scan_eq_exactMatch_iff (left : Nat) (field : CStr) (cells : List (Cell Char)) :
    ipv4Scan left field cells = .exactMatch ↔ Whole left field cells := by
  induction cells generalizing left field with
  | nil =>
    cases left with
    | zero =>
      rw [ipv4Scan, if_pos rfl, Whole]
      split
      · exact iff_of_true rfl ‹_›
      · exact iff_of_false (by rintro ⟨⟩) ‹_›
    | succ left =>
      rw [ipv4Scan, if_neg (Nat.succ_ne_zero left), Whole]
      split
      · exact iff_of_false (by rintro ⟨⟩) not_false
      · exact iff_of_false (by rintro ⟨⟩) not_false
  | cons cell cells ih =>
    obtain ⟨c, next⟩ := cell
    cases left with
    | zero => exact iff_of_false (by rintro ⟨⟩) not_false
    | succ left =>
      rw [ipv4Scan, Whole]
      by_cases dot : c = '.'
      · rw [if_pos dot]
        by_cases missing : next = []
        · rw [if_pos missing]
          refine iff_of_false ?_ fun whole => whole.2.2.1 missing
          split
          · rintro ⟨⟩
          · rintro ⟨⟩
        · rw [if_neg missing]
          by_cases sound : Sound field
          · rw [if_pos sound, ih]
            exact ⟨fun whole => ⟨sound, dot, missing, whole⟩, fun whole => whole.2.2.2⟩
          · rw [if_neg sound]
            exact iff_of_false (by rintro ⟨⟩) fun whole => sound whole.1
      · rw [if_neg dot]
        exact iff_of_false (by rintro ⟨⟩) fun whole => dot whole.2.1

structure Field where
  digits : CStr
  areDigits : Digits digits
  sound : Sound digits

def Field.cell (c : Char) (field : Field) : Cell Char :=
  (c, field.digits)

theorem Field.isField (field : Field) (present : field.digits ≠ []) : IsField field.digits :=
  isField_iff.mpr ⟨field.areDigits, field.sound, present⟩

theorem exists_field (field : IsField digits) :
    ∃ number : Field, number.digits = digits ∧ digits ≠ [] := by
  obtain ⟨areDigits, sound, present⟩ := isField_iff.mp field
  exact ⟨⟨digits, areDigits, sound⟩, rfl, present⟩

/-- Four numbers with dots between them, the first of which may be missing. -/
structure LooseAddress where
  a : Field
  b : Field
  c : Field
  d : Field
  second : b.digits ≠ []
  third : c.digits ≠ []
  fourth : d.digits ≠ []

namespace LooseAddress

variable (address : LooseAddress)

def cells : List (Cell Char) :=
  [address.b.cell '.', address.c.cell '.', address.d.cell '.']

def word : CStr :=
  text address.a.digits address.cells

theorem cut : Cut isdigit address.cells := by
  intro cell member
  simp only [cells, mem_cons, not_mem_nil, or_false] at member
  rcases member with rfl | rfl | rfl
  · exact ⟨rfl, address.b.areDigits⟩
  · exact ⟨rfl, address.c.areDigits⟩
  · exact ⟨rfl, address.d.areDigits⟩

theorem whole : Whole 3 address.a.digits address.cells :=
  ⟨address.a.sound, rfl, address.second, address.b.sound, rfl, address.third,
    address.c.sound, rfl, address.fourth, address.d.sound⟩

theorem word_eq : address.word = address.a.digits ++ '.' :: (address.b.digits ++ '.' ::
      (address.c.digits ++ '.' :: address.d.digits)) := by
  unfold word cells Field.cell
  rw [text_cons, text_cons, text_cons, text_nil]

end LooseAddress

theorem exists_looseAddress {cells : List (Cell Char)} (digits : Digits field)
    (cut : Cut isdigit cells) (whole : Whole 3 field cells) :
    ∃ address : LooseAddress, field = address.a.digits ∧ cells = address.cells := by
  match cells, cut, whole with
  | [(_, b), (_, c), (_, d)], cut, whole =>
    obtain ⟨soundA, rfl, second, soundB, rfl, third, soundC, rfl, fourth, soundD⟩ := whole
    have digitsB := (cut ('.', b) (by simp)).2
    have digitsC := (cut ('.', c) (by simp)).2
    have digitsD := (cut ('.', d) (by simp)).2
    exact ⟨⟨⟨field, digits, soundA⟩, ⟨b, digitsB, soundB⟩,
      ⟨c, digitsC, soundC⟩, ⟨d, digitsD, soundD⟩, second, third, fourth⟩,
      rfl, rfl⟩

/-- **The words that `cmd_ipv4_match` accepts.** -/
theorem cmdIpv4Match_eq_exactMatch_iff (word : CStr) : cmdIpv4Match word = .exactMatch ↔
      ∃ address : LooseAddress, word = address.word := by
  constructor
  · intro matched
    obtain ⟨field, cells, digits, cut, rfl⟩ := exists_cut isdigit word
    rw [cmdIpv4Match_text digits cut, ipv4Scan_eq_exactMatch_iff] at matched
    obtain ⟨address, rfl, rfl⟩ := exists_looseAddress digits cut matched
    exact ⟨address, rfl⟩
  · rintro ⟨address, rfl⟩
    unfold LooseAddress.word
    rw [cmdIpv4Match_text address.a.areDigits address.cut, ipv4Scan_eq_exactMatch_iff]
    exact address.whole

theorem isAddress_iff (word : CStr) : IsAddress word ↔ ∃ address : LooseAddress,
      word = address.word ∧ address.a.digits ≠ [] := by
  constructor
  · rintro ⟨a, b, c, d, rfl, fields⟩
    obtain ⟨a, rfl, first⟩ := exists_field (fields a (by simp))
    obtain ⟨b, rfl, second⟩ := exists_field (fields b (by simp))
    obtain ⟨c, rfl, third⟩ := exists_field (fields c (by simp))
    obtain ⟨d, rfl, fourth⟩ := exists_field (fields d (by simp))
    refine ⟨⟨a, b, c, d, second, third, fourth⟩, ?_, first⟩
    rw [LooseAddress.word_eq]
  · rintro ⟨address, rfl, first⟩
    refine ⟨_, _, _, _, address.word_eq, ?_⟩
    simp only [forall_mem_cons]
    exact ⟨address.a.isField first, address.b.isField address.second,
      address.c.isField address.third, address.d.isField address.fourth,
      nofun⟩

theorem LooseAddress.ext_of_word {address other : LooseAddress} (same : address.word = other.word) :
    address.a.digits = other.a.digits ∧ address.cells = other.cells :=
  text_inj address.a.areDigits address.cut other.a.areDigits other.cut same

/-! ## Prefixes -/

def slashes (fields : List Field) : List (Cell Char) :=
  fields.map (Field.cell '/')

theorem cut_slashes (fields : List Field) : Cut isdigit (slashes fields) := by
  intro cell member
  obtain ⟨field, _, rfl⟩ := mem_map.mp member
  exact ⟨rfl, field.areDigits⟩

theorem sound_of_headScan {cells : List (Cell Char)}
    {mask : CStr × List (Cell Char)} (found : headScan left field cells = .ok mask) :
    Sound field := by
  by_contra unsound
  cases cells with
  | nil => cases found
  | cons cell cells =>
    obtain ⟨c, next⟩ := cell
    rw [headScan, if_neg unsound, if_neg unsound] at found
    split at found
    · cases found
    · split at found
      · split at found
        · cases found
        · cases found
      · cases found

structure Section (left : Nat) (mask : CStr × List (Cell Char)) (cells : List (Cell Char))
    where
  more : List Field
  next : Field
  rest : List (Cell Char)
  equal : cells = slashes more ++ next.cell '.' :: rest
  present : next.digits ≠ []
  found : headScan left next.digits rest = .ok mask

theorem headScan_succ_iff {cells : List (Cell Char)}
    (cut : Cut isdigit cells) (mask : CStr × List (Cell Char)) :
    headScan (left + 1) field cells = .ok mask ↔
      Sound field ∧ Nonempty (Section left mask cells) := by
  induction cells generalizing field with
  | nil =>
    refine iff_of_false nofun ?_
    rintro ⟨_, more, next, rest, equal, _, _⟩
    cases append_eq_nil_iff.mp equal.symm |>.2
  | cons cell cells ih =>
    obtain ⟨c, digits⟩ := cell
    obtain ⟨⟨_, areDigits⟩, later⟩ := forall_mem_cons.mp cut
    constructor
    · intro found
      have sound := sound_of_headScan found
      refine ⟨sound, ?_⟩
      rw [headScan, if_pos sound, if_neg (Nat.succ_ne_zero left), if_pos sound] at found
      by_cases slash : c = '/'
      · rw [if_pos slash] at found
        obtain ⟨nextSound, more, next, rest, equal, present, behind⟩ := (ih later).mp found
        subst slash equal
        exact ⟨⟨digits, areDigits, nextSound⟩ :: more, next, rest, rfl, present, behind⟩
      · rw [if_neg slash] at found
        split at found
        · rename_i dot
          split at found
          · cases found
          · rename_i present
            cases dot.1
            exact ⟨[], ⟨digits, areDigits, sound_of_headScan found⟩, cells, rfl, present, found⟩
        · cases found
    · rintro ⟨sound, more, next, rest, equal, present, found⟩
      rw [headScan, if_pos sound, if_neg (Nat.succ_ne_zero left), if_pos sound]
      cases more with
      | nil =>
        cases equal
        rw [if_neg (by decide), if_pos ⟨rfl, Nat.succ_ne_zero left⟩, if_neg present]
        exact found
      | cons first more =>
        cases equal
        rw [if_pos rfl]
        exact (ih later).mpr ⟨first.sound, more, next, rest, rfl, present, found⟩

theorem headScan_zero_iff {cells : List (Cell Char)} (mask : CStr × List (Cell Char)) :
    headScan 0 field cells = .ok mask ↔
      Sound field ∧ cells = ('/', mask.1) :: mask.2 ∧ mask ≠ ([], []) := by
  constructor
  · intro found
    have sound := sound_of_headScan found
    cases cells with
    | nil => cases found
    | cons cell cells =>
      obtain ⟨c, next⟩ := cell
      rw [headScan, if_pos sound, if_pos rfl] at found
      split at found
      · rename_i slash
        split at found
        · cases found
        · rename_i nonempty
          cases found
          refine ⟨sound, by rw [slash], ?_⟩
          rintro same
          exact nonempty (Prod.mk.inj same)
      · rw [if_neg fun dot => dot.2 rfl] at found
        cases found
  · rintro ⟨sound, rfl, nonempty⟩
    rw [headScan, if_pos rfl, if_pos sound, if_pos rfl, if_neg]
    rintro ⟨first, second⟩
    exact nonempty (Prod.ext first second)

/-- The address before the slash of a prefix: four numbers with dots between
them, of which the first may be missing, and more numbers with slashes before
them up to the last dot. -/
structure LooseHead where
  a : Field
  more : List Field
  b : Field
  further : List Field
  c : Field
  others : List Field
  d : Field
  second : b.digits ≠ []
  third : c.digits ≠ []
  fourth : d.digits ≠ []

namespace LooseHead

variable (head : LooseHead)

def cells : List (Cell Char) :=
  slashes head.more ++ head.b.cell '.' :: (slashes head.further ++ head.c.cell '.' ::
      (slashes head.others ++ [head.d.cell '.']))

def word : CStr :=
  text head.a.digits head.cells

/-- The address is an ordinary one. -/
def Regular : Prop :=
  head.a.digits ≠ [] ∧ head.more = [] ∧ head.further = [] ∧ head.others = []

end LooseHead

variable {head : LooseHead}

theorem cut_behind {more : List Field} {cell : Cell Char}
    (cut : Cut isdigit (slashes more ++ cell :: rest)) : Cut isdigit rest :=
  fun _ member => cut _ (mem_append_right _ (mem_cons_of_mem _ member))

/-- The address is read up to the slash exactly if it is a loose one. -/
theorem headScan_eq_ok_iff {cells : List (Cell Char)} (digits : Digits field)
    (cut : Cut isdigit cells) (mask : CStr × List (Cell Char)) :
    headScan 3 field cells = .ok mask ↔
      mask ≠ ([], []) ∧ ∃ head : LooseHead, field = head.a.digits ∧
        cells = head.cells ++ ('/', mask.1) :: mask.2 := by
  constructor
  · intro found
    obtain ⟨sound, more, b, rest, rfl, second, behind⟩ := (headScan_succ_iff cut mask).mp found
    have cut' := cut_behind cut
    obtain ⟨_, further, c, rest, rfl, third, last⟩ := (headScan_succ_iff cut' mask).mp behind
    have cut'' := cut_behind cut'
    obtain ⟨_, others, d, rest, rfl, fourth, ends⟩ := (headScan_succ_iff cut'' mask).mp last
    obtain ⟨_, rfl, nonempty⟩ := (headScan_zero_iff mask).mp ends
    refine ⟨nonempty, ⟨⟨field, digits, sound⟩, more, b, further, c, others, d,
      second, third, fourth⟩, rfl, ?_⟩
    unfold LooseHead.cells
    simp
  · rintro ⟨nonempty, head, rfl, rfl⟩
    have equal : head.cells ++ ('/', mask.1) :: mask.2 = slashes head.more ++ head.b.cell '.' ::
          (slashes head.further ++ head.c.cell '.' :: (slashes head.others ++ head.d.cell '.' ::
              ('/', mask.1) :: mask.2)) := by
      unfold LooseHead.cells
      simp
    rw [equal] at cut ⊢
    have second := cut_behind cut
    have third := cut_behind second
    refine (headScan_succ_iff cut mask).mpr ⟨head.a.sound, head.more, head.b,
      _, rfl, head.second, ?_⟩
    refine (headScan_succ_iff second mask).mpr ⟨head.b.sound, head.further,
      head.c, _, rfl, head.third, ?_⟩
    refine (headScan_succ_iff third mask).mpr ⟨head.c.sound, head.others,
      head.d, _, rfl, head.fourth, ?_⟩
    exact (headScan_zero_iff mask).mpr ⟨head.d.sound, rfl, nonempty⟩

theorem LooseHead.cut (head : LooseHead) : Cut isdigit head.cells := by
  unfold cells Cut
  simp only [forall_mem_append, forall_mem_cons]
  exact ⟨cut_slashes _, ⟨rfl, head.b.areDigits⟩, cut_slashes _,
    ⟨rfl, head.c.areDigits⟩, cut_slashes _, ⟨rfl, head.d.areDigits⟩, nofun⟩

theorem LooseHead.text_slash (head : LooseHead) (mask : CStr) (more : List (Cell Char)) :
    text head.a.digits (head.cells ++ ('/', mask) :: more) =
      head.word ++ '/' :: text mask more := by
  unfold word text
  simp

theorem cut_slash (digits : Digits mask) (cut : Cut isdigit more) :
    Cut isdigit (head.cells ++ ('/', mask) :: more) :=
  forall_mem_append.mpr ⟨head.cut, forall_mem_cons.mpr ⟨⟨rfl, digits⟩, cut⟩⟩

theorem exists_headScan (word : CStr) :
    ∃ field cells, Digits field ∧ Cut isdigit cells ∧ word = text field cells ∧
      ∀ mask more, headScan 3 field cells = .ok (mask, more) → text mask more ≠ [] ∧
        ∃ head : LooseHead, word = head.word ++ '/' :: text mask more := by
  obtain ⟨field, cells, digits, cut, rfl⟩ := exists_cut isdigit word
  refine ⟨field, cells, digits, cut, rfl, fun mask more found => ?_⟩
  obtain ⟨nonempty, head, rfl, rfl⟩ := (headScan_eq_ok_iff digits cut _).mp found
  refine ⟨?_, head, head.text_slash mask more⟩
  intro empty
  obtain ⟨rfl, rfl⟩ := (text_eq_nil_iff mask more).mp empty
  exact nonempty rfl

theorem headScan_word
    (digits : Digits mask) (cut : Cut isdigit more) (nonempty : text mask more ≠ []) :
    headScan 3 head.a.digits (head.cells ++ ('/', mask) :: more) = .ok (mask, more) := by
  refine (headScan_eq_ok_iff head.a.areDigits (cut_slash digits cut) _).mpr ⟨?_, head, rfl, rfl⟩
  intro empty
  cases empty
  exact nonempty rfl

theorem masked_eq_exactMatch_iff (judge : CStr → MatchType) (word : CStr) :
    masked judge word = .exactMatch ↔ ∃ (head : LooseHead) (mask : CStr),
        word = head.word ++ '/' :: mask ∧ mask ≠ [] ∧ judge mask = .exactMatch := by
  constructor
  · intro matched
    obtain ⟨field, cells, digits, cut, rfl, parts⟩ := exists_headScan word
    rw [masked_text digits cut] at matched
    cases found : headScan 3 field cells with
    | error answer =>
      rw [found] at matched
      exact absurd matched (headScan_ne_exactMatch found)
    | ok result =>
      obtain ⟨nonempty, head, equal⟩ := parts result.1 result.2 found
      rw [found] at matched
      exact ⟨head, _, equal, nonempty, matched⟩
  · rintro ⟨head, mask, rfl, nonempty, accepted⟩
    obtain ⟨field, cells, digits, cut, rfl⟩ := exists_cut isdigit mask
    rw [← head.text_slash, masked_text head.a.areDigits (cut_slash digits cut),
      headScan_word digits cut nonempty]
    exact accepted

theorem length_accepted_iff (length : CStr) :
    (if !length.all isdigit then MatchType.noMatch
      else if 32 < digitsInt length then .noMatch
      else .exactMatch) = .exactMatch ↔
      Digits length ∧ digitsInt length ≤ 32 := by
  unfold Digits Filled
  rw [← all_eq_true]
  cases length.all isdigit with
  | false => exact iff_of_false nofun nofun
  | true =>
    by_cases large : 32 < digitsInt length
    · exact iff_of_false (by simp [large]) fun both => both.2.not_gt large
    · exact iff_of_true (by simp [large]) ⟨rfl, Int.not_lt.mp large⟩

/-- **The words that `cmd_ipv4_prefix_match` accepts.** -/
theorem cmdIpv4PrefixMatch_eq_exactMatch_iff (word : CStr) : cmdIpv4PrefixMatch word = .exactMatch ↔
      ∃ (head : LooseHead) (length : CStr),
        word = head.word ++ '/' :: length ∧ isNumeral length ∧ digitsInt length ≤ 32 := by
  refine (masked_eq_exactMatch_iff _ word).trans ?_
  simp only [length_accepted_iff]
  constructor
  · rintro ⟨head, length, equal, nonempty, digits, small⟩
    exact ⟨head, length, equal, isNumeral_of_forall nonempty digits, small⟩
  · rintro ⟨head, length, equal, numeral, small⟩
    exact ⟨head, length, equal, ne_nil_of_isNumeral numeral, isdigit_of_isNumeral numeral, small⟩

/-- **The words that `cmd_ipv4_netmask_match` accepts.** -/
theorem cmdIpv4NetmaskMatch_eq_exactMatch_iff (word : CStr) :
    cmdIpv4NetmaskMatch word = .exactMatch ↔ ∃ (head : LooseHead) (mask : LooseAddress),
        word = head.word ++ '/' :: mask.word := by
  refine (masked_eq_exactMatch_iff cmdIpv4Match word).trans ?_
  simp only [cmdIpv4Match_eq_exactMatch_iff]
  constructor
  · rintro ⟨head, _, equal, _, mask, rfl⟩
    exact ⟨head, mask, equal⟩
  · rintro ⟨head, mask, equal⟩
    refine ⟨head, _, equal, fun empty => ?_, mask, rfl⟩
    cases ((text_eq_nil_iff _ _).mp empty).2

/-! ## Ordinary and odd words -/

theorem slashes_inj {more others : List Field} {next following : Field} {tail : List (Cell Char)}
    (same : slashes more ++ next.cell '.' :: rest = slashes others ++ following.cell '.' :: tail) :
    (more = [] ↔ others = []) ∧ next.digits = following.digits ∧ rest = tail := by
  induction more generalizing others with
  | nil =>
    cases others with
    | nil =>
      obtain ⟨heads, tails⟩ := List.cons.inj same
      exact ⟨Iff.rfl, (Prod.mk.inj heads).2, tails⟩
    | cons other others =>
      have heads := (Prod.mk.inj (List.cons.inj same).1).1
      cases heads
  | cons first more ih =>
    cases others with
    | nil =>
      have heads := (Prod.mk.inj (List.cons.inj same).1).1
      cases heads
    | cons other others =>
      obtain ⟨_, next, rest⟩ := ih (List.cons.inj same).2
      exact ⟨iff_of_false nofun nofun, next, rest⟩

theorem LooseHead.unique {other : LooseHead} {following : CStr}
    (same : head.word ++ '/' :: mask = other.word ++ '/' :: following) :
    (head.Regular ↔ other.Regular) ∧ mask = following := by
  obtain ⟨field, cells, digits, cut, rfl⟩ := exists_cut isdigit mask
  obtain ⟨field', cells', digits', cut', rfl⟩ := exists_cut isdigit following
  rw [← head.text_slash, ← other.text_slash] at same
  obtain ⟨first, rest⟩ := text_inj head.a.areDigits (cut_slash digits cut)
    other.a.areDigits (cut_slash digits' cut') same
  unfold LooseHead.cells at rest
  simp only [append_assoc, cons_append] at rest
  obtain ⟨more, _, rest⟩ := slashes_inj rest
  obtain ⟨further, _, rest⟩ := slashes_inj rest
  obtain ⟨others, _, rest⟩ := slashes_inj rest
  cases rest
  unfold Regular
  rw [first, more, further, others]
  exact ⟨Iff.rfl, rfl⟩

theorem regular_iff (word : CStr) :
    (∃ head : LooseHead, word = head.word ∧ head.Regular) ↔ IsAddress word := by
  rw [isAddress_iff]
  constructor
  · rintro ⟨head, rfl, first, more, further, others⟩
    refine ⟨⟨head.a, head.b, head.c, head.d, head.second, head.third, head.fourth⟩, ?_, first⟩
    unfold LooseHead.word LooseHead.cells LooseAddress.word LooseAddress.cells
    rw [more, further, others]
    rfl
  · rintro ⟨address, rfl, first⟩
    exact ⟨⟨address.a, [], address.b, [], address.c, [], address.d,
      address.second, address.third, address.fourth⟩, rfl, first, rfl, rfl,
      rfl⟩

/-- An address without its first number. -/
def OddAddress (word : CStr) : Prop :=
  ∃ address : LooseAddress, word = address.word ∧ address.a.digits = []

/-- A prefix with an address that is not an ordinary one, or with a length that
is too large but not so after it has been reduced to 32 bits. -/
def OddPrefix (word : CStr) : Prop :=
  ∃ (head : LooseHead) (length : CStr), word = head.word ++ '/' :: length ∧
    isNumeral length ∧ digitsInt length ≤ 32 ∧
    (¬ head.Regular ∨ 32 < digitsValue length)

/-- Two addresses, one of which is not an ordinary one. -/
def OddNetmask (word : CStr) : Prop :=
  ∃ (head : LooseHead) (mask : LooseAddress),
    word = head.word ++ '/' :: mask.word ∧ (¬ head.Regular ∨ mask.a.digits = [])

theorem address_match_iff (word : CStr) :
    (cmdIpv4Match word = .exactMatch ↔ IsAddress word) ↔ ¬ OddAddress word := by
  rw [cmdIpv4Match_eq_exactMatch_iff, isAddress_iff]
  constructor
  · rintro exact_ ⟨address, rfl, missing⟩
    obtain ⟨other, same, first⟩ := exact_.mp ⟨address, rfl⟩
    rw [← (LooseAddress.ext_of_word same).1] at first
    exact first missing
  · intro plain
    refine ⟨?_, fun ⟨address, equal, _⟩ => ⟨address, equal⟩⟩
    rintro ⟨address, rfl⟩
    exact ⟨address, rfl, fun missing => plain ⟨address, rfl, missing⟩⟩

theorem digitsInt_le_of_digitsValue_le (small : digitsValue digits ≤ 32) :
    digitsInt digits ≤ 32 := by
  unfold digitsInt
  rw [Int.bmod_eq_of_le (by omega) (by omega)]
  omega

theorem prefix_match_iff (word : CStr) : (cmdIpv4PrefixMatch word = .exactMatch ↔ IsPrefix word) ↔
      ¬ OddPrefix word := by
  rw [cmdIpv4PrefixMatch_eq_exactMatch_iff]
  constructor
  · rintro exact_ ⟨head, length, equal, numeral, small, odd⟩
    obtain ⟨address, other, equal', ordinary, _, bounded⟩ :=
      exact_.mp ⟨head, length, equal, numeral, small⟩
    obtain ⟨regularHead, rfl, regular⟩ := (regular_iff address).mpr ordinary
    obtain ⟨heads, masks⟩ := LooseHead.unique (equal.symm.trans equal')
    rcases odd with irregular | large
    · exact irregular (heads.mpr regular)
    · rw [masks] at large
      exact large.not_ge bounded
  · intro plain
    constructor
    · rintro ⟨head, length, equal, numeral, small⟩
      have regular : head.Regular := by
        by_contra irregular
        exact plain ⟨head, length, equal, numeral, small, .inl irregular⟩
      have bounded : digitsValue length ≤ 32 := by
        by_contra large
        exact plain ⟨head, length, equal, numeral, small, .inr (Nat.lt_of_not_le large)⟩
      exact ⟨head.word, length, equal, (regular_iff _).mp ⟨head, rfl, regular⟩, numeral, bounded⟩
    · rintro ⟨address, length, equal, ordinary, numeral, bounded⟩
      obtain ⟨head, rfl, _⟩ := (regular_iff address).mpr ordinary
      exact ⟨head, length, equal, numeral, digitsInt_le_of_digitsValue_le bounded⟩

theorem netmask_match_iff (word : CStr) :
    (cmdIpv4NetmaskMatch word = .exactMatch ↔ IsNetmask word) ↔ ¬ OddNetmask word := by
  rw [cmdIpv4NetmaskMatch_eq_exactMatch_iff]
  constructor
  · rintro exact_ ⟨head, mask, equal, odd⟩
    obtain ⟨address, other, equal', ordinary, second⟩ := exact_.mp ⟨head, mask, equal⟩
    obtain ⟨regularHead, rfl, regular⟩ := (regular_iff address).mpr ordinary
    obtain ⟨regularMask, rfl, first⟩ := (isAddress_iff other).mp second
    obtain ⟨heads, masks⟩ := LooseHead.unique (equal.symm.trans equal')
    rcases odd with irregular | missing
    · exact irregular (heads.mpr regular)
    · rw [← (LooseAddress.ext_of_word masks).1] at first
      exact first missing
  · intro plain
    constructor
    · rintro ⟨head, mask, equal⟩
      have regular : head.Regular := by
        by_contra irregular
        exact plain ⟨head, mask, equal, .inl irregular⟩
      have first : mask.a.digits ≠ [] := fun missing => plain ⟨head, mask, equal, .inr missing⟩
      exact ⟨head.word, mask.word, equal, (regular_iff _).mp ⟨head, rfl, regular⟩,
        (isAddress_iff _).mpr ⟨mask, rfl, first⟩⟩
    · rintro ⟨address, mask, equal, ordinary, second⟩
      obtain ⟨head, rfl, _⟩ := (regular_iff address).mpr ordinary
      obtain ⟨mask, rfl, _⟩ := (isAddress_iff mask).mp second
      exact ⟨head, mask, equal⟩

/-- **The matchers accept exactly their grammar for the words that are not
odd.** -/
theorem ipv4_matchers_exact_iff (word : CStr) :
    ((cmdIpv4Match word = .exactMatch ↔ IsAddress word) ∧
      (cmdIpv4PrefixMatch word = .exactMatch ↔ IsPrefix word) ∧
      (cmdIpv4NetmaskMatch word = .exactMatch ↔ IsNetmask word)) ↔
      ¬ OddAddress word ∧ ¬ OddPrefix word ∧ ¬ OddNetmask word := by
  rw [address_match_iff, prefix_match_iff, netmask_match_iff]

/-- An address may lack its first number, the numbers of a prefix may be
separated by a slash, and its length may be too large. -/
theorem odd_words_accepted : cmdIpv4Match ".2.3.4" = .exactMatch ∧
      ¬ IsAddress ".2.3.4" ∧
      cmdIpv4PrefixMatch "1/2.3.4.5/4294967296" = .exactMatch ∧
      cmdIpv4NetmaskMatch "1.2.3.4/.0.0.0" = .exactMatch := by
  refine ⟨by decide, ?_, by decide, by decide⟩
  rintro ⟨a, b, c, d, equal, fields⟩
  have first := ne_nil_of_isNumeral (fields a (by simp)).numeral
  have digits := isdigit_of_isNumeral (fields a (by simp)).numeral
  cases a with
  | nil => exact first rfl
  | cons digit a =>
    obtain ⟨rfl, _⟩ := List.cons.inj equal
    cases digits '.' mem_cons_self

end OpsCli.Command.Ipv4
