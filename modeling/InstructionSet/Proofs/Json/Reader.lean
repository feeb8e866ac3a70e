import InstructionSet.Json.Reader
import InstructionSet.Proofs.Json.Value

/-!
# What is read has distinct keys

A member whose key is there already takes the place of the earlier one, so the reader never
builds an object with a key twice.
-/

namespace InstructionSet.Json

/-- A run of steps keeps what each of them keeps. -/
theorem foldlM_preserves {α β : Type} {f : β → α → Option β} {p : β → Prop} {q : α → Prop}
    (hstep : ∀ {b a b'}, p b → q a → f b a = some b' → p b') {xs : List α} (hxs : ∀ a ∈ xs, q a)
    {b b' : β} (hb : p b) (h : xs.foldlM f b = some b') : p b' := by
  induction xs generalizing b with
  | nil => exact Option.some.inj h ▸ hb
  | cons a xs ih =>
      rw [List.forall_mem_cons] at hxs
      rw [List.foldlM_cons] at h
      obtain ⟨next, hnext, hrest⟩ := Option.bind_eq_some_iff.mp h
      exact ih hxs.2 (hstep hb hxs.1 hnext) hrest

/-! ## Tokens -/

def Token.Keyed : Token → Prop
  | .atom v => v.keyed
  | _ => True

namespace Scanner

theorem keyed_of_atom? {word : List Char} {v : Value} (h : atom? word = some v) : v.keyed := by
  rw [atom?] at h
  split at h
  · exact Option.some.inj h ▸ rfl
  · split at h
    · exact Option.some.inj h ▸ rfl
    · split at h
      · exact Option.some.inj h ▸ rfl
      · obtain ⟨n, -, rfl⟩ := Option.map_eq_some_iff.mp h
        rfl

theorem keyed_of_punctuation? {c : Char} {token : Token} (h : punctuation? c = some token) :
    token.Keyed := by
  unfold punctuation? at h
  split at h <;> cases h <;> trivial

theorem keyed_of_flush? {s : Scanner} {tokens : List Token} (h : s.flush? = some tokens) :
    ∀ token ∈ tokens, token.Keyed := by
  cases s with
  | idle => simp [← Option.some.inj h]
  | word seen =>
      obtain ⟨v, hv, rfl⟩ := Option.map_eq_some_iff.mp h
      exact List.forall_mem_singleton.mpr (keyed_of_atom? hv)
  | _ => cases h

theorem keyed_of_delimiter? {c : Char} {s : Scanner} {tokens : List Token}
    (h : delimiter? c = some (s, tokens)) : ∀ token ∈ tokens, token.Keyed := by
  rw [delimiter?] at h
  split at h
  · cases h
    exact List.forall_mem_nil _
  · split at h
    · cases h
      exact List.forall_mem_nil _
    · obtain ⟨token, htoken, heq⟩ := Option.map_eq_some_iff.mp h
      cases heq
      exact List.forall_mem_singleton.mpr (keyed_of_punctuation? htoken)

/-- The only values that the scanner makes are atoms. -/
theorem keyed_of_step? {c : Char} {s s' : Scanner} {tokens : List Token}
    (h : s.step? c = some (s', tokens)) : ∀ token ∈ tokens, token.Keyed := by
  cases s with
  | idle =>
      rw [step?] at h
      split at h
      · cases h
        exact List.forall_mem_nil _
      · exact keyed_of_delimiter? h
  | word seen =>
      rw [step?] at h
      split at h
      · cases h
        exact List.forall_mem_nil _
      · obtain ⟨first, hfirst, h⟩ := Option.bind_eq_some_iff.mp h
        obtain ⟨⟨next, more⟩, hmore, h⟩ := Option.bind_eq_some_iff.mp h
        cases h
        exact List.forall_mem_append.mpr ⟨keyed_of_flush? hfirst, keyed_of_delimiter? hmore⟩
  | text seen =>
      rw [step?] at h
      split at h
      · cases h
        exact List.forall_mem_singleton.mpr trivial
      · split at h
        · cases h
          exact List.forall_mem_nil _
        · split at h <;> cases h
          exact List.forall_mem_nil _
  | escape seen =>
      rw [step?] at h
      split at h
      · cases h
        exact List.forall_mem_nil _
      · obtain ⟨d, -, heq⟩ := Option.map_eq_some_iff.mp h
        cases heq
        exact List.forall_mem_nil _
  | unit seen high digits =>
      rw [step?] at h
      obtain ⟨digit, -, h⟩ := Option.bind_eq_some_iff.mp h
      split at h
      · obtain ⟨next, -, heq⟩ := Option.map_eq_some_iff.mp h
        cases heq
        exact List.forall_mem_nil _
      · cases h
        exact List.forall_mem_nil _
  | pair seen high =>
      rw [step?] at h
      split at h <;> cases h
      exact List.forall_mem_nil _
  | pairEscape seen high =>
      rw [step?] at h
      split at h <;> cases h
      exact List.forall_mem_nil _

end Scanner

/-! ## Outlines -/

def Frame.Keyed : Frame → Prop
  | .array items => ∀ item ∈ items, item.keyed
  | .object members _ => (Value.object members).keyed

/-- Whatever has been read so far has distinct keys. -/
def Outline.Keyed : Outline → Prop
  | .value around _ => ∀ frame ∈ around, frame.Keyed
  | .key members around _ | .colon _ members around =>
      (Value.object members).keyed ∧ ∀ frame ∈ around, frame.Keyed
  | .after v around => v.keyed ∧ ∀ frame ∈ around, frame.Keyed

theorem Value.keyed_array_reverse {items : List Value} (h : ∀ item ∈ items, item.keyed) :
    (array items.reverse).keyed :=
  keyed_array.mpr fun item hitem => h item (List.mem_reverse.mp hitem)

/-- One more token keeps the keys distinct: a member is put where its key is. -/
theorem Outline.keyed_of_feed? {o o' : Outline} {token : Token} (ho : o.Keyed)
    (htoken : token.Keyed) (h : o.feed? token = some o') : o'.Keyed := by
  unfold feed? at h
  split at h
  -- A value without parts, and the beginning of an array or an object.
  · cases h
    exact ⟨rfl, ho⟩
  · cases h
    exact ⟨htoken, ho⟩
  · split at h <;> cases h
    exact List.forall_mem_cons.mpr ⟨List.forall_mem_nil _, ho⟩
  · split at h <;> cases h
    exact ⟨rfl, ho⟩
  -- The end of an empty array.
  · cases h
    have hframes := List.forall_mem_cons.mp ho
    exact ⟨Value.keyed_array_reverse hframes.1, hframes.2⟩
  -- A key, the end of an empty object, and a colon.
  · cases h
    exact ho
  · cases h
    exact ho
  · cases h
    exact List.forall_mem_cons.mpr ho
  -- After an item, and after the value of a member.
  · cases h
    have hframes := List.forall_mem_cons.mp ho.2
    exact List.forall_mem_cons.mpr ⟨List.forall_mem_cons.mpr ⟨ho.1, hframes.1⟩, hframes.2⟩
  · cases h
    have hframes := List.forall_mem_cons.mp ho.2
    exact ⟨Value.keyed_array_reverse (List.forall_mem_cons.mpr ⟨ho.1, hframes.1⟩), hframes.2⟩
  · cases h
    have hframes := List.forall_mem_cons.mp ho.2
    exact ⟨Value.keyed_put hframes.1 ho.1, hframes.2⟩
  · cases h
    have hframes := List.forall_mem_cons.mp ho.2
    exact ⟨Value.keyed_put hframes.1 ho.1, hframes.2⟩
  · cases h

theorem Reader.keyed_of_read? {r r' : Reader} {c : Char} (hr : r.outline.Keyed)
    (h : r.read? c = some r') : r'.outline.Keyed := by
  obtain ⟨⟨scanner, tokens⟩, hstep, h⟩ := Option.bind_eq_some_iff.mp h
  obtain ⟨outline, houtline, h⟩ := Option.bind_eq_some_iff.mp h
  cases h
  exact foldlM_preserves Outline.keyed_of_feed? (Scanner.keyed_of_step? hstep) hr houtline

theorem Reader.keyed_of_finish? {r : Reader} {v : Value} (hr : r.outline.Keyed)
    (h : r.finish? = some v) : v.keyed := by
  obtain ⟨tokens, htokens, h⟩ := Option.bind_eq_some_iff.mp h
  obtain ⟨outline, houtline, h⟩ := Option.bind_eq_some_iff.mp h
  have hkeyed := foldlM_preserves Outline.keyed_of_feed? (Scanner.keyed_of_flush? htokens) hr
    houtline
  split at h <;> cases h
  exact hkeyed.1

theorem keyed_of_parse? {text : String} {v : Value} (h : parse? text = some v) : v.keyed := by
  obtain ⟨r, hr, hfinish⟩ := Option.bind_eq_some_iff.mp h
  have hstart : Reader.start.outline.Keyed := by simp [Reader.start, Outline.Keyed]
  have hkeyed : r.outline.Keyed :=
    foldlM_preserves (p := fun r => r.outline.Keyed) (q := fun _ => True)
      (fun hr _ h => Reader.keyed_of_read? hr h) (by simp) hstart hr
  exact Reader.keyed_of_finish? hkeyed hfinish

end InstructionSet.Json
