import OpsCli.Command.Authorization

/-!
# The passkey buffer

The buffer holds the last passkey followed by zeros as long as the passkeys do
not get shorter.  A shorter one is followed by a character of its predecessor.
-/

namespace OpsCli.Command.Passkey

open CLib.CString Authorization List

/-- A text in an otherwise empty buffer. -/
def pad (text : CStr) : List Char :=
  text ++ List.replicate (maxLengthTacacsPasskey - text.length) '\x00'

/-! ## Reading -/

variable {buffer : List Char} {key text old : CStr}

theorem bufferText_append (noTerminator : '\x00' ∉ text) (rest : List Char) :
    bufferText (text ++ '\x00' :: rest) = text := by
  unfold bufferText
  rw [takeWhile_append_of_pos, takeWhile_cons_of_neg (by simp), append_nil]
  intro c member
  exact decide_eq_true fun equal => noTerminator (equal ▸ member)

theorem bufferText_pad (noTerminator : '\x00' ∉ text)
    (fits : text.length + 1 < maxLengthTacacsPasskey) : bufferText (pad text) = text := by
  obtain ⟨count, equal⟩ : ∃ count, maxLengthTacacsPasskey - text.length = count + 1 :=
    ⟨maxLengthTacacsPasskey - text.length - 1, by omega⟩
  rw [pad, equal, replicate_succ]
  exact bufferText_append noTerminator _

theorem getElem?_bufferText_length (inside : (bufferText buffer).length < buffer.length) :
    buffer[(bufferText buffer).length]? = some '\x00' := by
  induction buffer with
  | nil => cases inside
  | cons c rest ih =>
    unfold bufferText at inside ih ⊢
    by_cases terminator : c = '\x00'
    · rw [takeWhile_cons_of_neg (by simp [terminator]), terminator]
      rfl
    · rw [takeWhile_cons_of_pos (by simpa using terminator)] at inside ⊢
      exact ih (Nat.lt_of_succ_lt_succ inside)

/-! ## Copying -/

theorem fits_of_copyPasskey {next : List Char} (copied : copyPasskey buffer key = some next) :
    key.length + 1 < maxLengthTacacsPasskey := by
  by_contra long
  rw [copyPasskey, if_neg long] at copied
  cases copied

theorem copyPasskey_pad (longer : old.length ≤ key.length)
    (fits : key.length + 1 < maxLengthTacacsPasskey) :
    copyPasskey (pad old) key = some (pad key) := by
  have dropped : (pad old).drop key.length =
      List.replicate (maxLengthTacacsPasskey - key.length) '\x00' := by
    rw [pad, drop_append, drop_of_length_le longer, nil_append, drop_replicate]
    congr 1
    omega
  have unchanged : (key ++ List.replicate (maxLengthTacacsPasskey - key.length) '\x00').set
          (key.length + 1) '\x00' = pad key := by
    rw [set_append_right _ _ (Nat.le_succ _), set_replicate_self]
    rfl
  rw [copyPasskey, if_pos fits, dropped, unchanged]

/-- A shorter passkey is not what the buffer then holds. -/
theorem bufferText_ne_of_shorter (noTerminator : '\x00' ∉ old) (shorter : key.length < old.length)
    (copied : copyPasskey (pad old) key = some buffer) : bufferText buffer ≠ key := by
  intro same
  unfold copyPasskey at copied
  split at copied
  · rename_i fits
    have equal := Option.some.inj copied
    have inside : key.length < buffer.length := by
      rw [← equal, length_set, length_append, length_drop, pad, length_append]
      omega
    have terminator : buffer[key.length]? = some '\x00' := by
      have found := getElem?_bufferText_length
        (show (bufferText buffer).length < buffer.length by rwa [same])
      rwa [same] at found
    have kept : buffer[key.length]? = old[key.length]? := by
      rw [← equal, getElem?_set_ne (by omega), getElem?_append_right le_rfl, getElem?_drop,
        Nat.sub_self, Nat.add_zero, pad, getElem?_append_left shorter]
    rw [kept] at terminator
    exact noTerminator (mem_of_getElem? terminator)
  · cases copied

end OpsCli.Command.Passkey
