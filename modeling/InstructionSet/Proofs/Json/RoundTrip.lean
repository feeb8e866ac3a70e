import InstructionSet.Proofs.Json.Members
import InstructionSet.Proofs.Json.Printer
import InstructionSet.Proofs.Json.Reader

/-!
# Texts that are written can be read

From the text of a value, compact or pretty, the reader makes the value with the last value of
each repeated key and with its numbers as they come out of rounding, unless more containers are
open at once than it allows. Within its limits it makes the value that was written.
-/

namespace InstructionSet.Json

/-! ## Values within the limits of the reader -/

mutual

/-- At most `room` containers are open at once, and every number is read as it is written. -/
def Value.readable (room : Nat) : Value → Bool
  | .number n => Number.ofChars? n.chars == some n
  | .array items => 0 < room && readableItems (room - 1) items
  | .object members => 0 < room && readableMembers (room - 1) members
  | _ => true

def readableItems (room : Nat) : List Value → Bool
  | [] => true
  | item :: rest => item.readable room && readableItems room rest

def readableMembers (room : Nat) : List (String × Value) → Bool
  | [] => true
  | (_, value) :: rest => value.readable room && readableMembers room rest

end

theorem readableItems_iff {room : Nat} {items : List Value} :
    readableItems room items ↔ ∀ item ∈ items, item.readable room := by
  induction items with
  | nil => simp [readableItems]
  | cons item rest ih => rw [readableItems, Bool.and_eq_true, ih, List.forall_mem_cons]

theorem readableMembers_iff {room : Nat} {members : List (String × Value)} :
    readableMembers room members ↔ ∀ member ∈ members, member.2.readable room := by
  induction members with
  | nil => simp [readableMembers]
  | cons member rest ih => rw [readableMembers, Bool.and_eq_true, ih, List.forall_mem_cons]

namespace Value

variable {room : Nat}

@[simp] theorem readable_number {n : Number} :
    (number n).readable room ↔ Number.ofChars? n.chars = some n := by
  rw [readable, beq_iff_eq]

@[simp] theorem readable_array {items : List Value} :
    (array items).readable room ↔ 0 < room ∧ ∀ item ∈ items, item.readable (room - 1) := by
  rw [readable, Bool.and_eq_true, decide_eq_true_iff, readableItems_iff]

@[simp] theorem readable_object {members : List (String × Value)} :
    (object members).readable room ↔
      0 < room ∧ ∀ member ∈ members, member.2.readable (room - 1) := by
  rw [readable, Bool.and_eq_true, decide_eq_true_iff, readableMembers_iff]

end Value

mutual

/-- What the text of a value is read as, if at most `room` containers may be open at once. -/
def Value.reread? (room : Nat) : Value → Option Value
  | .number n => (Number.ofChars? n.chars).map .number
  | .array items => if 0 < room then (rereadItems? (room - 1) items).map .array else none
  | .object members =>
      if 0 < room then
        (rereadMembers? (room - 1) members).map fun read => .object (Entries.putAll read [])
      else none
  | atom => some atom

def rereadItems? (room : Nat) : List Value → Option (List Value)
  | [] => some []
  | item :: rest => do return (← item.reread? room) :: (← rereadItems? room rest)

def rereadMembers? (room : Nat) : List (String × Value) → Option (List (String × Value))
  | [] => some []
  | (key, value) :: rest => do
      return (key, ← value.reread? room) :: (← rereadMembers? room rest)

end

/-- A member keeps its key. -/
def rereadMember? (room : Nat) (member : String × Value) : Option (String × Value) :=
  (member.2.reread? room).map fun value => (member.1, value)

theorem rereadItems?_eq_mapM (room : Nat) (items : List Value) :
    rereadItems? room items = items.mapM (Value.reread? room) := by
  induction items with
  | nil => rfl
  | cons item rest ih => rw [rereadItems?, ih, List.mapM_cons]

theorem rereadMembers?_eq_mapM (room : Nat) (members : List (String × Value)) :
    rereadMembers? room members = members.mapM (rereadMember? room) := by
  induction members with
  | nil => rfl
  | cons member rest ih =>
      rw [rereadMembers?, ih, List.mapM_cons, rereadMember?]
      cases member.2.reread? room <;> rfl

theorem mapM_eq_some_map {α β : Type} {f : α → Option β} {g : α → β} {xs : List α}
    (h : ∀ x ∈ xs, f x = some (g x)) : xs.mapM f = some (xs.map g) := by
  induction xs with
  | nil => rfl
  | cons x xs ih =>
      rw [List.forall_mem_cons] at h
      rw [List.mapM_cons, h.1, ih h.2]
      rfl

namespace Value

variable {room : Nat}

theorem reread?_array (items : List Value) :
    (array items).reread? room =
      if 0 < room then (items.mapM (reread? (room - 1))).map array else none := by
  rw [reread?, rereadItems?_eq_mapM]

theorem reread?_object (members : List (String × Value)) :
    (object members).reread? room =
      if 0 < room then
        (members.mapM (rereadMember? (room - 1))).map fun read => object (Entries.putAll read [])
      else none := by
  rw [reread?, rereadMembers?_eq_mapM]

theorem reread?_of_readable {v : Value} (h : v.readable room) :
    v.reread? room = some v.asRead := by
  induction v using Value.inductionOn generalizing room with
  | number n =>
      rw [reread?, readable_number.mp h]
      rfl
  | array items ih =>
      obtain ⟨hroom, hitems⟩ := readable_array.mp h
      have hread := mapM_eq_some_map fun item hitem => ih item hitem (hitems item hitem)
      rw [reread?_array, if_pos hroom, hread, asRead_array]
      rfl
  | object members ih =>
      obtain ⟨hroom, hmembers⟩ := readable_object.mp h
      have hread : members.mapM (rereadMember? (room - 1)) =
          some (members.map fun member => (member.1, member.2.asRead)) :=
        mapM_eq_some_map fun member hmember => by
          rw [rereadMember?, ih member hmember (hmembers member hmember), Option.map_some]
      rw [reread?_object, if_pos hroom, hread, asRead_object]
      rfl
  | _ => rfl

end Value

/-! ## Steps of the reader -/

namespace Reader

/-- The token under way, if there is one, may end here and leads to `o`. -/
def Reaches (r : Reader) (o : Outline) : Prop :=
  ∃ tokens, r.scanner.flush? = some tokens ∧ tokens.foldlM Outline.feed? r.outline = some o

theorem reaches_idle (o : Outline) : Reaches ⟨.idle, o⟩ o := ⟨[], rfl, rfl⟩

theorem eq_of_reaches_idle {o o' : Outline} (h : Reaches ⟨.idle, o⟩ o') : o = o' := by
  obtain ⟨tokens, hflush, hfeed⟩ := h
  obtain rfl : [] = tokens := Option.some.inj hflush
  exact Option.some.inj hfeed

theorem reaches_unique {r : Reader} {o o' : Outline} (h : r.Reaches o) (h' : r.Reaches o') :
    o = o' := by
  obtain ⟨tokens, hflush, hfeed⟩ := h
  obtain ⟨tokens', hflush', hfeed'⟩ := h'
  obtain rfl : tokens = tokens' := Option.some.inj (hflush.symm.trans hflush')
  exact Option.some.inj (hfeed.symm.trans hfeed')

/-- A character of no word is read as if no word came before it. -/
theorem read?_of_reaches {r : Reader} {o : Outline} {c : Char} (h : r.Reaches o)
    (hc : Scanner.isWordChar c = false) : r.read? c = read? ⟨.idle, o⟩ c := by
  obtain ⟨scanner, outline⟩ := r
  cases scanner with
  | idle => rw [eq_of_reaches_idle h]
  | word seen =>
      obtain ⟨tokens, hflush, hfeed⟩ := h
      dsimp only at hflush hfeed
      cases hdelimiter : Scanner.delimiter? c with
      | none => simp [read?, Scanner.step?, hc, hflush, hdelimiter]
      | some next => simp [read?, Scanner.step?, hc, hflush, hdelimiter, hfeed]
  | _ =>
      obtain ⟨tokens, hflush, -⟩ := h
      cases hflush

/-- Reading `text` takes the reader from `o` to `o'`. -/
def Leads (o : Outline) (text : List Char) (o' : Outline) : Prop :=
  ∃ r, text.foldlM read? ⟨.idle, o⟩ = some r ∧ r.Reaches o'

namespace Leads

variable {o o' o'' : Outline}

theorem nil : Leads o [] o := ⟨_, rfl, reaches_idle o⟩

/-- A text that leads on is read up to its end, and what follows is read from there. -/
theorem append_iff {text rest : List Char} (htext : Leads o text o') (hends : Ends rest) :
    Leads o (text ++ rest) o'' ↔ Leads o' rest o'' := by
  obtain ⟨r, hr, hreaches⟩ := htext
  cases rest with
  | nil =>
      rw [List.append_nil]
      constructor
      · rintro ⟨s, hs, hreaches'⟩
        obtain rfl : r = s := Option.some.inj (hr.symm.trans hs)
        exact reaches_unique hreaches hreaches' ▸ nil
      · rintro ⟨s, hs, hreaches'⟩
        obtain rfl : ⟨.idle, o'⟩ = s := Option.some.inj hs
        exact ⟨r, hr, eq_of_reaches_idle hreaches' ▸ hreaches⟩
  | cons c rest =>
      have hc : Scanner.isWordChar c = false := by simpa using hends c rfl
      rw [Leads, Leads, List.foldlM_append, hr, Option.bind_eq_bind, Option.bind_some,
        List.foldlM_cons, List.foldlM_cons, read?_of_reaches hreaches hc]

/-- A character that is a token by itself. -/
theorem mark_iff {c : Char} {token : Token} (hc : Scanner.punctuation? c = some token)
    {rest : List Char} :
    Leads o (c :: rest) o'' ↔ ∃ o', o.feed? token = some o' ∧ Leads o' rest o'' := by
  have hread : read? ⟨.idle, o⟩ c = (o.feed? token).map fun o' => ⟨.idle, o'⟩ := by
    have hdelimiter : Scanner.step? c .idle = some (.idle, [token]) := by
      unfold Scanner.punctuation? at hc
      split at hc <;> cases hc <;> rfl
    cases ho : o.feed? token <;> simp [read?, hdelimiter, ho]
  rw [Leads, List.foldlM_cons, hread]
  cases o.feed? token <;> simp [Leads]

theorem blank_iff {c : Char} (hc : Scanner.isBlank c) {rest : List Char} :
    Leads o (c :: rest) o' ↔ Leads o rest o' := by
  have hread : read? ⟨.idle, o⟩ c = some ⟨.idle, o⟩ := by
    simp only [Scanner.isBlank, Bool.or_eq_true, beq_iff_eq] at hc
    rcases hc with ((rfl | rfl) | rfl) | rfl <;> rfl
  rw [Leads, List.foldlM_cons, hread]
  rfl

theorem append {text rest : List Char} (htext : Leads o text o') (hrest : Leads o' rest o'')
    (hends : Ends rest) : Leads o (text ++ rest) o'' :=
  (htext.append_iff hends).mpr hrest

theorem mark {c : Char} {token : Token} (hc : Scanner.punctuation? c = some token)
    (ho : o.feed? token = some o') {rest : List Char} (hrest : Leads o' rest o'') :
    Leads o (c :: rest) o'' :=
  (mark_iff hc).mpr ⟨o', ho, hrest⟩

theorem blanks_iff {indent rest : List Char} (hindent : ∀ c ∈ indent, Scanner.isBlank c) :
    Leads o (indent ++ rest) o' ↔ Leads o rest o' := by
  induction indent with
  | nil => exact Iff.rfl
  | cons c indent ih =>
      rw [List.forall_mem_cons] at hindent
      exact (blank_iff hindent.1).trans (ih hindent.2)

end Leads

/-- Reading `text` comes from `o` to the outline that is given, or fails whatever text follows. -/
def Settles (o : Outline) (text : List Char) : Option Outline → Prop
  | some o' => Leads o text o'
  | none => ∀ rest o', Ends rest → ¬Leads o (text ++ rest) o'

namespace Settles

variable {o o' : Outline} {result : Option Outline}

theorem append_none {text : List Char} (h : Settles o text none) {rest : List Char}
    (hends : Ends rest) : Settles o (text ++ rest) none := by
  intro more o' hmore
  rw [List.append_assoc]
  exact h _ o' (hends.append hmore)

theorem append {text rest : List Char} (htext : Leads o text o') (hrest : Settles o' rest result)
    (hends : Ends rest) : Settles o (text ++ rest) result := by
  cases result with
  | some o'' => exact htext.append hrest hends
  | none =>
      intro more o'' hmore
      rw [List.append_assoc, htext.append_iff (hends.append hmore)]
      exact hrest more o'' hmore

theorem mark {c : Char} {token : Token} (hc : Scanner.punctuation? c = some token)
    (ho : o.feed? token = some o') {rest : List Char} (hrest : Settles o' rest result) :
    Settles o (c :: rest) result := by
  cases result with
  | some o'' => exact Leads.mark hc ho hrest
  | none =>
      rintro more o'' hmore h
      obtain ⟨_, hfeed, h⟩ := (Leads.mark_iff hc).mp h
      obtain rfl := Option.some.inj (ho.symm.trans hfeed)
      exact hrest more o'' hmore h

theorem mark_none {c : Char} {token : Token} (hc : Scanner.punctuation? c = some token)
    (ho : o.feed? token = none) (rest : List Char) : Settles o (c :: rest) none := by
  rintro more o'' - h
  obtain ⟨_, hfeed, -⟩ := (Leads.mark_iff hc).mp h
  rw [ho] at hfeed
  cases hfeed

theorem blanks {indent rest : List Char} (hindent : ∀ c ∈ indent, Scanner.isBlank c)
    (hrest : Settles o rest result) : Settles o (indent ++ rest) result := by
  cases result with
  | some o' => exact (Leads.blanks_iff hindent).mpr hrest
  | none =>
      intro more o' hmore
      rw [List.append_assoc, Leads.blanks_iff hindent]
      exact hrest more o' hmore

end Settles

/-! ### Texts and words -/

theorem foldlM_read?_of_textEnd? {scanner : Scanner} {text rest : List Char} {s : String}
    (h : scanner.textEnd? text = some (s, rest)) {o o' : Outline}
    (ho : o.feed? (.text s) = some o') :
    text.foldlM read? ⟨scanner, o⟩ = rest.foldlM read? ⟨.idle, o'⟩ := by
  induction text generalizing scanner with
  | nil => cases h
  | cons c text ih =>
      rw [Scanner.textEnd?] at h
      rw [List.foldlM_cons]
      split at h
      · rename_i found hstep
        obtain ⟨rfl, rfl⟩ := Prod.mk.inj (Option.some.inj h)
        simp [read?, hstep, ho]
      · rename_i next hstep
        simp [read?, hstep, ih h]
      · cases h

theorem leads_escaped {s : String} {o o' : Outline} (ho : o.feed? (.text s) = some o') :
    Leads o (escaped s) o' := by
  have hend := Scanner.textEnd?_flatMap [] s.toList []
  simp at hend
  refine ⟨⟨.idle, o'⟩, ?_, reaches_idle o'⟩
  rw [escaped, List.cons_append, List.foldlM_cons]
  exact foldlM_read?_of_textEnd? hend ho

theorem foldlM_read?_word {word : List Char} (hword : ∀ c ∈ word, Scanner.isWordChar c)
    (seen : List Char) (o : Outline) :
    word.foldlM read? ⟨.word seen, o⟩ = some ⟨.word (word.reverse ++ seen), o⟩ := by
  induction word generalizing seen with
  | nil => rfl
  | cons c word ih =>
      rw [List.forall_mem_cons] at hword
      have hread : read? ⟨.word seen, o⟩ c = some ⟨.word (c :: seen), o⟩ := by
        simp [read?, Scanner.step?, hword.1]
      rw [List.foldlM_cons, hread, Option.bind_eq_bind, Option.bind_some, ih hword.2]
      simp

/-- A word is read as its value, or fails where it ends. -/
theorem settles_word {word : List Char} (hne : word ≠ [])
    (hword : ∀ c ∈ word, Scanner.isWordChar c) (around : List Frame) (closes : Bool) :
    Settles (.value around closes) word ((Scanner.atom? word).map fun v => .after v around) := by
  have hread : word.foldlM read? ⟨.idle, .value around closes⟩ =
      some ⟨.word word.reverse, .value around closes⟩ := by
    obtain ⟨c, rest, rfl⟩ := List.exists_cons_of_ne_nil hne
    rw [List.forall_mem_cons] at hword
    have hfirst : read? ⟨.idle, .value around closes⟩ c =
        some ⟨.word [c], .value around closes⟩ := by
      simp [read?, Scanner.step?, hword.1]
    rw [List.foldlM_cons, hfirst, List.reverse_cons]
    exact foldlM_read?_word hword.2 [c] _
  have hflush : Scanner.flush? (.word word.reverse) =
      (Scanner.atom? word).map fun v => [.atom v] := by
    rw [Scanner.flush?, List.reverse_reverse]
  cases hatom : Scanner.atom? word with
  | some v => exact ⟨_, hread, [.atom v], by rw [hflush, hatom]; rfl, rfl⟩
  | none =>
      rw [hatom, Option.map_none] at hflush
      rintro rest o hends ⟨r, hr, tokens, htokens, -⟩
      rw [List.foldlM_append, hread, Option.bind_eq_bind, Option.bind_some] at hr
      cases rest with
      | nil =>
          obtain rfl := Option.some.inj hr
          cases hflush.symm.trans htokens
      | cons c rest =>
          have hc : Scanner.isWordChar c = false := by simpa using hends c rfl
          simp [List.foldlM_cons, read?, Scanner.step?, hc, hflush] at hr

/-! ### Items and members -/

section

variable {first : Char} {ending : List Char} (hfirst : Scanner.isWordChar first = false)
  {close : Token} (hclose : ∀ {o o'}, o.feed? close = some o' → Leads o (first :: ending) o')

include hfirst hclose

/-- Elements with commas between them, each added to those before it, up to the mark that closes
the list. The first that cannot be read ends the reading. -/
theorem settles_intercalate {α β γ : Type} {texts : α → List Char} (value? : α → Option γ)
    (before : β → Bool → Outline) (after : β → γ → Outline) (add : β → γ → β)
    (done : β → Outline) (hempty : ∀ b, (before b true).feed? close = some (done b))
    (hcomma : ∀ b y, (after b y).feed? .comma = some (before (add b y) false))
    (hdone : ∀ b y, (after b y).feed? close = some (done (add b y))) {xs : List α}
    (helement : ∀ x ∈ xs, ∀ b closes,
      Settles (before b closes) (texts x) ((value? x).map (after b)))
    (b : β) {closes : Bool} (h : closes = true ∨ xs ≠ []) :
    Settles (before b closes) ([','].intercalate (xs.map texts) ++ first :: ending)
      ((xs.mapM value?).map fun ys => done (ys.foldl add b)) := by
  induction xs generalizing b closes with
  | nil =>
      obtain rfl : closes = true := h.resolve_right fun hne => hne rfl
      exact hclose (hempty b)
  | cons x xs ih =>
      rw [List.forall_mem_cons] at helement
      have hx := helement.1 b closes
      have hends : Ends (if xs = [] then first :: ending
          else ',' :: ([','].intercalate (xs.map texts) ++ first :: ending)) := by
        split
        · exact ends_cons hfirst ending
        · exact ends_cons (by decide) _
      rw [intercalate_cons_append, List.mapM_cons]
      cases hvalue : value? x with
      | none =>
          rw [hvalue] at hx
          exact hx.append_none hends
      | some y =>
          rw [hvalue] at hx
          refine Settles.append hx ?_ hends
          by_cases hlast : xs = []
          · subst hlast
            exact hclose (hdone b y)
          · rw [if_neg hlast]
            refine .mark rfl (hcomma b y) ?_
            have hlater : false = true ∨ xs ≠ [] := .inr hlast
            have hrest := ih helement.2 (add b y) hlater
            cases hread : xs.mapM value? <;> rw [hread] at hrest <;> exact hrest

end

section

variable {first : Char} {ending : List Char} (hfirst : Scanner.isWordChar first = false)
  {around : List Frame} (closes : Bool)

include hfirst

theorem settles_array {items : List Value} {texts : Value → List Char}
    (hclose : ∀ {o o'}, o.feed? .closeArray = some o' → Leads o (first :: ending) o')
    (hitem : ∀ item ∈ items, ∀ frame closes,
      Settles (.value (frame :: around) closes) (texts item)
        ((item.reread? (depthLimit - (frame :: around).length)).map fun v =>
          .after v (frame :: around))) :
    Settles (.value around closes)
      ('[' :: ([','].intercalate (items.map texts) ++ first :: ending))
      (((Value.array items).reread? (depthLimit - around.length)).map fun v =>
        .after v around) := by
  rw [Value.reread?_array]
  by_cases hroom : around.length < depthLimit
  · have hopen : (Outline.value around closes).feed? .openArray =
        some (.value (.array [] :: around) true) := by
      simp [Outline.feed?, hroom]
    have hitems := settles_intercalate hfirst hclose
      (Value.reread? (depthLimit - around.length - 1))
      (fun read closes => .value (.array read :: around) closes)
      (fun read v => .after v (.array read :: around)) (fun read v => v :: read)
      (fun read => .after (.array read.reverse) around) (fun _ => rfl) (fun _ _ => rfl)
      (fun _ _ => rfl) (fun item hmem read closes => hitem item hmem (.array read) closes)
      [] (.inl rfl)
    rw [if_pos (Nat.sub_pos_of_lt hroom), Option.map_map]
    refine .mark rfl hopen ?_
    simpa [Function.comp_def] using hitems
  · rw [if_neg (by omega)]
    exact .mark_none rfl (by simp [Outline.feed?, hroom]) _

theorem settles_object {members : List (String × Value)} {texts : String × Value → List Char}
    (hclose : ∀ {o o'}, o.feed? .closeObject = some o' → Leads o (first :: ending) o')
    (hmember : ∀ member ∈ members, ∀ read closes,
      Settles (.key read around closes) (texts member)
        ((rereadMember? (depthLimit - around.length - 1) member).map fun entry =>
          .after entry.2 (.object read entry.1 :: around))) :
    Settles (.value around closes)
      ('\x7b' :: ([','].intercalate (members.map texts) ++ first :: ending))
      (((Value.object members).reread? (depthLimit - around.length)).map fun v =>
        .after v around) := by
  rw [Value.reread?_object]
  by_cases hroom : around.length < depthLimit
  · have hopen : (Outline.value around closes).feed? .openObject =
        some (.key [] around true) := by
      simp [Outline.feed?, hroom]
    have hmembers := settles_intercalate hfirst hclose
      (rereadMember? (depthLimit - around.length - 1))
      (fun read closes => .key read around closes)
      (fun read entry => .after entry.2 (.object read entry.1 :: around))
      (fun read entry => Entries.put entry read) (fun read => .after (.object read) around)
      (fun _ => rfl) (fun _ _ => rfl) (fun _ _ => rfl) hmember [] (.inl rfl)
    rw [if_pos (Nat.sub_pos_of_lt hroom), Option.map_map]
    exact .mark rfl hopen hmembers
  · rw [if_neg (by omega)]
    exact .mark_none rfl (by simp [Outline.feed?, hroom]) _

omit hfirst in
/-- A member is read as a key, a colon and a value, with blanks between them. -/
theorem settles_member {member : String × Value} {indent gap text : List Char}
    (hindent : ∀ c ∈ indent, Scanner.isBlank c) (hgap : ∀ c ∈ gap, Scanner.isBlank c)
    (hvalue : ∀ frame closes,
      Settles (.value (frame :: around) closes) text
        ((member.2.reread? (depthLimit - (frame :: around).length)).map fun v =>
          .after v (frame :: around)))
    (read : List (String × Value)) (closes : Bool) :
    Settles (.key read around closes) (indent ++ (escaped member.1 ++ ':' :: (gap ++ text)))
      ((rereadMember? (depthLimit - around.length - 1) member).map fun entry =>
        .after entry.2 (.object read entry.1 :: around)) := by
  refine .blanks hindent (Settles.append (leads_escaped rfl) ?_ (ends_cons (by decide) _))
  refine .mark rfl rfl (.blanks hgap ?_)
  have hmember := hvalue (.object read member.1) false
  rw [rereadMember?, Option.map_map]
  exact hmember

end

end Reader

/-! ## Reading what was written -/

namespace Value

open Reader (Settles)

theorem atom?_compactChars {v : Value} (hv : v.opening? = none) (room : Nat) :
    Scanner.atom? v.compactChars = v.reread? room := by
  cases v with
  | null => rfl
  | bool b => cases b <;> rfl
  | number n =>
      have hchars : (number n).compactChars = n.chars := rfl
      have hspelled := Number.spelled?_chars n
      have hne (word : List Char) (hword : Number.spelled? word = none) : n.chars ≠ word := by
        rintro rfl
        rw [hword] at hspelled
        cases hspelled
      rw [hchars, Scanner.atom?, if_neg (hne _ rfl), if_neg (hne _ rfl), if_neg (hne _ rfl),
        reread?]
  | text s => cases hv
  | array items => cases hv
  | object members => cases hv

/-- A value of one word is read off that word. -/
theorem settles_compactChars_word {v : Value} (hv : v.opening? = none) (around : List Frame)
    (closes : Bool) (room : Nat) :
    Settles (.value around closes) v.compactChars
      ((v.reread? room).map fun v => .after v around) := by
  have hne : v.compactChars ≠ [] := by
    obtain ⟨c, rest, hchars, -⟩ := v.exists_compactChars_eq_cons
    simp [hchars]
  rw [← atom?_compactChars hv]
  exact Reader.settles_word hne (isWordChar_of_mem_compactChars hv) around closes

/-- The induction is on the value, whatever containers are open around it. -/
theorem settles_compactChars (v : Value) (around : List Frame) (closes : Bool) :
    Settles (.value around closes) v.compactChars
      ((v.reread? (depthLimit - around.length)).map fun v => .after v around) := by
  induction v using Value.inductionOn generalizing around closes with
  | null => exact settles_compactChars_word rfl around closes _
  | bool b => exact settles_compactChars_word rfl around closes _
  | number n => exact settles_compactChars_word rfl around closes _
  | text s => exact Reader.leads_escaped rfl
  | array items ih =>
      rw [compactChars_array]
      exact Reader.settles_array (by decide) closes (fun hdone => .mark rfl hdone .nil)
        fun item hitem frame closes => ih item hitem _ closes
  | object members ih =>
      rw [compactChars_object]
      exact Reader.settles_object (by decide) closes (fun hdone => .mark rfl hdone .nil)
        fun member hmember => @Reader.settles_member around member [] [] _ (by simp) (by simp)
          fun frame closes => ih member hmember _ closes

end Value

/-! ### Pretty text -/

theorem isBlank_of_mem_newLine {depth : Nat} : ∀ c ∈ newLine depth, Scanner.isBlank c := by
  simp only [newLine, List.forall_mem_cons, List.mem_replicate]
  refine ⟨by decide, ?_⟩
  rintro c ⟨-, rfl⟩
  decide

theorem Reader.Settles.newLine (depth : Nat) {o : Outline} {rest : List Char}
    {result : Option Outline} (hrest : Settles o rest result) :
    Settles o (Json.newLine depth ++ rest) result :=
  .blanks isBlank_of_mem_newLine hrest

/-- How an item is written on a line of its own. -/
def itemLine (depth : Nat) (item : Value) : List Char := newLine depth ++ item.prettyChars depth

/-- How a member is written on a line of its own. -/
def memberLine (depth : Nat) (member : String × Value) : List Char :=
  newLine depth ++ (escaped member.1 ++ ':' :: ' ' :: member.2.prettyChars depth)

theorem prettyItems_eq (depth : Nat) (items : List Value) :
    prettyItems depth items = [','].intercalate (items.map (itemLine depth)) := by
  induction items with
  | nil => rfl
  | cons item rest ih =>
      cases rest with
      | nil => simp [prettyItems, itemLine]
      | cons next rest => simp [prettyItems, itemLine, ih]

theorem prettyMembers_eq (depth : Nat) (members : List (String × Value)) :
    prettyMembers depth members = [','].intercalate (members.map (memberLine depth)) := by
  induction members with
  | nil => rfl
  | cons member rest ih =>
      cases rest with
      | nil => simp [prettyMembers, memberLine]
      | cons next rest => simp [prettyMembers, memberLine, ih]

namespace Value

open Reader (Settles)

theorem prettyChars_array {items : List Value} (hne : items ≠ []) (depth : Nat) :
    (array items).prettyChars depth =
      '[' :: ([','].intercalate (items.map (itemLine (depth + 1))) ++
        (newLine depth ++ [']'])) := by
  obtain ⟨item, items, rfl⟩ := List.exists_cons_of_ne_nil hne
  rw [prettyChars, prettyItems_eq, List.cons_append, List.cons_append, List.append_assoc]

theorem prettyChars_object {members : List (String × Value)} (hne : members ≠ []) (depth : Nat) :
    (object members).prettyChars depth =
      '\x7b' :: ([','].intercalate (members.map (memberLine (depth + 1))) ++
        (newLine depth ++ ['\x7d'])) := by
  obtain ⟨member, members, rfl⟩ := List.exists_cons_of_ne_nil hne
  rw [prettyChars, prettyMembers_eq, List.cons_append, List.cons_append, List.append_assoc]

theorem settles_prettyChars (v : Value) (depth : Nat) (around : List Frame) (closes : Bool) :
    Settles (.value around closes) (v.prettyChars depth)
      ((v.reread? (depthLimit - around.length)).map fun v => .after v around) := by
  induction v using Value.inductionOn generalizing depth around closes with
  | null => exact settles_compactChars .null around closes
  | bool b => exact settles_compactChars (.bool b) around closes
  | number n => exact settles_compactChars (.number n) around closes
  | text s => exact settles_compactChars (.text s) around closes
  | array items ih =>
      by_cases hempty : items = []
      · subst hempty
        exact settles_compactChars (.array []) around closes
      · rw [prettyChars_array hempty]
        exact Reader.settles_array (by decide) closes
          (fun hdone => (Reader.Leads.blanks_iff isBlank_of_mem_newLine).mpr
            (.mark rfl hdone .nil))
          fun item hitem frame closes => .newLine (depth + 1) (ih item hitem _ _ closes)
  | object members ih =>
      by_cases hempty : members = []
      · subst hempty
        exact settles_compactChars (.object []) around closes
      · rw [prettyChars_object hempty]
        exact Reader.settles_object (by decide) closes
          (fun hdone => (Reader.Leads.blanks_iff isBlank_of_mem_newLine).mpr
            (.mark rfl hdone .nil))
          fun member hmember => @Reader.settles_member around member _ [' '] _
            isBlank_of_mem_newLine (List.forall_mem_singleton.mpr rfl)
            fun frame closes => ih member hmember _ _ closes

end Value

/-! ### Whole texts -/

theorem Reader.finish?_eq_some_iff {r : Reader} {v : Value} :
    r.finish? = some v ↔ r.Reaches (.after v []) := by
  constructor
  · intro h
    simp only [finish?, Option.bind_eq_bind, Option.bind_eq_some_iff] at h
    obtain ⟨tokens, hflush, o, hfeed, hv⟩ := h
    split at hv
    · cases hv
      exact ⟨tokens, hflush, hfeed⟩
    · cases hv
  · rintro ⟨tokens, hflush, hfeed⟩
    simp [finish?, hflush, hfeed]

theorem parse?_eq_some_iff {text : String} {v : Value} :
    parse? text = some v ↔ Reader.Leads (.value [] false) text.toList (.after v []) := by
  simp only [parse?, Option.bind_eq_bind, Option.bind_eq_some_iff, Reader.finish?_eq_some_iff]
  rfl

theorem parse?_of_settles {text : String} {v? : Option Value}
    (h : Reader.Settles (.value [] false) text.toList (v?.map fun v => .after v [])) :
    parse? text = v? := by
  cases v? with
  | some v => exact parse?_eq_some_iff.mpr h
  | none =>
      refine Option.eq_none_iff_forall_ne_some.mpr fun v hv => ?_
      have hleads := parse?_eq_some_iff.mp hv
      rw [← List.append_nil text.toList] at hleads
      exact h [] _ (by simp [Ends]) hleads

/-- The text of a value, whatever it is, is read as the reader's limits leave it. -/
theorem parse?_compact_eq_reread? (v : Value) : parse? v.compact = v.reread? depthLimit := by
  apply parse?_of_settles
  rw [Value.compact, String.toList_ofList]
  exact v.settles_compactChars [] false

theorem parse?_pretty_eq_reread? (v : Value) : parse? v.pretty = v.reread? depthLimit := by
  apply parse?_of_settles
  rw [Value.pretty, String.toList_ofList]
  exact v.settles_prettyChars 0 [] false

theorem parse?_compact {v : Value} (h : v.readable depthLimit) :
    parse? v.compact = some v.asRead := by
  rw [parse?_compact_eq_reread?, Value.reread?_of_readable h]

/-- Reading takes a text back to the value that it was written from, if that has no key twice. -/
theorem parse?_compact_of_keyed {v : Value} (hkeyed : v.keyed) (h : v.readable depthLimit) :
    parse? v.compact = some v := by
  rw [parse?_compact h, Value.asRead_of_keyed hkeyed]

theorem parse?_pretty {v : Value} (h : v.readable depthLimit) :
    parse? v.pretty = some v.asRead := by
  rw [parse?_pretty_eq_reread?, Value.reread?_of_readable h]

end InstructionSet.Json
