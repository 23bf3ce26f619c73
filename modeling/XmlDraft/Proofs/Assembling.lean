import XmlDraft.Proofs.NormalForm
import XmlDraft.Proofs.Tags
import XmlDraft.Reading.Assembly

/-!
# What events put together

The events of written nodes, one after another, put their normal forms together: a tag opens an
element with the attributes and the namespace that it was written with, character data goes on
with the text before it, and what follows the tag goes into the element until it is closed.
Main statement: so it is for the tag of an element, and for its end.
-/

namespace XmlDraft

/-! ### Setting attributes -/

namespace Attributes

/-- Setting an attribute adds no other one. -/
theorem mem_set {attributes : Attributes} {name value : String} {a : String × String}
    (h : a ∈ attributes.set name value) :
  a ∈ attributes ∨ a = (name, value)
  := by
  induction attributes with
  | nil => exact .inr (List.mem_singleton.mp h)
  | cons first others ih =>
      obtain ⟨n, v⟩ := first
      rw [set] at h
      split_ifs at h with hn
      · rcases List.mem_cons.mp h with rfl | h
        · exact .inr (by rw [hn])
        · exact .inl (List.mem_cons_of_mem _ h)
      · rcases List.mem_cons.mp h with rfl | h
        · exact .inl List.mem_cons_self
        · exact (ih h).imp_left (List.mem_cons_of_mem _)

end Attributes

namespace Reading

namespace Assembly

/-! ### Joining -/

/-- A list of children with character data behind it, where there is any. -/
def pushText (children : List Node) (cs : List Char) : List Node :=
  if cs = [] then children else join children (String.ofList cs)

/-- A list of children with one more node, where a text goes on with a text before it. -/
def pushNode (children : List Node) (n : Node) : List Node :=
  match n with
  | .text s => join children s
  | n => children ++ [n]

theorem join_text (children : List Node) (s t : String) :
  join (children ++ [.text s]) t = children ++ [.text (s ++ t)]
  := by
  simp [join]

theorem join_other {children : List Node} (h : ∀ s, children.getLast? ≠ some (.text s))
    (t : String) :
  join children t = children ++ [.text t]
  := by
  unfold join
  split
  · rename_i s hs
    exact absurd hs (h s)
  · rfl

/-- A list of children ends with a text, or it does not. -/
theorem lastText_cases (children : List Node) :
  (∃ before s, children = before ++ [.text s]) ∨ ∀ s, children.getLast? ≠ some (.text s)
  := by
  by_cases h : ∃ s, children.getLast? = some (.text s)
  · obtain ⟨s, hs⟩ := h
    obtain ⟨before, rfl⟩ := List.getLast?_eq_some_iff.mp hs
    exact .inl ⟨before, s, rfl⟩
  · exact .inr (not_exists.mp h)

theorem join_join (children : List Node) (s t : String) :
  join (join children s) t = join children (s ++ t)
  := by
  rcases lastText_cases children with ⟨before, u, rfl⟩ | h
  · rw [join_text, join_text, join_text, String.append_assoc]
  · rw [join_other h, join_text, join_other h]

theorem pushText_append (children : List Node) (before after : List Char) :
  pushText (pushText children before) after = pushText children (before ++ after)
  := by
  unfold pushText
  by_cases hb : before = []
  · simp [hb]
  · by_cases ha : after = []
    · simp [ha]
    · simp [hb, ha, join_join, String.ofList_append]

theorem pushText_toList (children : List Node) {s : String} (h : s ≠ "") :
  pushText children s.toList = pushNode children (.text s)
  := by
  have hs : s.toList ≠ [] := by simpa using h
  rw [pushText, if_neg hs, String.ofList_toList, pushNode]

/-- Joining texts as they come, to children whose last is a text and to others. -/
theorem foldl_pushNode_cases (ns : List Node) :
  (∀ children s, ns.foldl pushNode (children ++ [.text s])
      = children ++ Node.joinTexts (.text s :: ns))
    ∧ ∀ children, (∀ s, children.getLast? ≠ some (.text s)) →
        ns.foldl pushNode children = children ++ Node.joinTexts ns
  := by
  induction ns with
  | nil =>
      constructor
      · intro children s
        simp [Node.joinTexts]
      · intro children _
        simp [Node.joinTexts]
  | cons n ns ih =>
      obtain ⟨htext, hother⟩ := ih
      by_cases hn : ∃ t, n = .text t
      · obtain ⟨t, rfl⟩ := hn
        constructor
        · intro children s
          rw [List.foldl_cons, pushNode, join_text, htext, Node.joinTexts]
        · intro children hlast
          rw [List.foldl_cons, pushNode, join_other hlast, htext]
      · have hpush (children : List Node) : pushNode children n = children ++ [n] := by
          unfold pushNode
          split
          · exact absurd ⟨_, rfl⟩ hn
          · rfl
        have hlast (children : List Node) : ∀ s, (children ++ [n]).getLast? ≠ some (.text s) := by
          intro s hs
          rw [List.getLast?_concat, Option.some.injEq] at hs
          exact hn ⟨s, hs⟩
        have hjoin : Node.joinTexts (n :: ns) = n :: Node.joinTexts ns := by
          rw [Node.joinTexts]
          rintro s t more rfl rfl
          exact hn ⟨s, rfl⟩
        constructor
        · intro children s
          rw [List.foldl_cons, hpush, hother _ (hlast _), Node.joinTexts, hjoin]
          · simp
          · intro _ t more _ heq
            exact hn ⟨t, List.head_eq_of_cons_eq heq⟩
        · intro children _
          rw [List.foldl_cons, hpush, hother _ (hlast _), hjoin, List.append_assoc]
          rfl

/-- Joining texts as they come is joining them all at once. -/
theorem foldl_pushNode (ns : List Node) :
  ns.foldl pushNode [] = Node.joinTexts ns
  := (foldl_pushNode_cases ns).2 [] (by simp)

/-! ### Attributes -/

theorem set_append {attributes : Attributes} {name : String}
    (h : name ∉ attributes.map Prod.fst) (value : String) :
  Attributes.set attributes name value = attributes ++ [(name, value)]
  := by
  induction attributes with
  | nil => rfl
  | cons a others ih =>
      rw [List.map_cons, List.mem_cons, not_or] at h
      rw [Attributes.set, if_neg fun heq => h.1 heq.symm, ih h.2]
      rfl

/-- The attributes of a tag are taken over in their order. -/
theorem attributesOf_append (space : Option String) (attributes : Attributes)
    (rest : List (Label × String)) (held : Attributes)
    (hnodup : ((held ++ attributes).map Prod.fst).Nodup)
    (hspace : "xmlns" ∉ attributes.map Prod.fst) :
  attributesOf space ((plainTag "" attributes).given ++ rest) held
    = attributesOf space rest (held ++ attributes)
  := by
  induction attributes generalizing held with
  | nil => rw [List.append_nil]; rfl
  | cons a others ih =>
      obtain ⟨name, value⟩ := a
      rw [List.map_cons, List.mem_cons, not_or] at hspace
      have hfresh : name ∉ held.map Prod.fst := by
        intro hmem
        rw [List.map_append, List.nodup_append] at hnodup
        exact hnodup.2.2 name hmem name (by simp) rfl
      have hothers := ih (held ++ [(name, value)]) (by simpa using hnodup) hspace.2
      rw [List.append_assoc, List.singleton_append] at hothers
      rw [← hothers, ← set_append hfresh value]
      simp only [plainTag, List.map_cons, List.cons_append, attributesOf]
      rw [if_neg fun heq => hspace.1 heq.symm]

/-- A written tag gives back the attributes of its element and the namespace inside it. -/
theorem attributesOf_tagAttributes (scope : Option String) (name : QName)
    {attributes : Attributes} (hnodup : (attributes.map Prod.fst).Nodup)
    (hspace : "xmlns" ∉ attributes.map Prod.fst) :
  attributesOf scope (plainTag "" (Writing.tagAttributes scope name attributes)).given []
    = (attributes, Writing.innerScope scope name)
  := by
  have hplain := attributesOf_append scope attributes
    (plainTag "" ((Writing.declared scope name).toList.map fun uri => ("xmlns", uri))).given []
    (by simpa using hnodup) hspace
  have hgiven : (plainTag "" (Writing.tagAttributes scope name attributes)).given
      = (plainTag "" attributes).given
        ++ (plainTag ""
          ((Writing.declared scope name).toList.map fun uri => ("xmlns", uri))).given := by
    simp [plainTag, Writing.tagAttributes]
  rw [hgiven, hplain, List.nil_append, ← Writing.declared_or]
  cases hd : Writing.declared scope name with
  | none => rfl
  | some uri =>
      have huri := (Writing.declared_some hd).2
      simp [plainTag, attributesOf, huri]

/-! ### Elements -/

/-- An assembly with one more open element, inside which a namespace is in scope. -/
def inside (a : Assembly) (o : OpenElement) (space : Option String) : Assembly :=
  { a with opened := o :: a.opened, spaces := space :: a.spaces }

/-- An assembly between two nodes, with a default namespace in scope. -/
structure IsBetween (a : Assembly) (scope : Option String) : Prop where
  closed : a.openSection = none
  outside : a.subset = none
  scope : a.spaces.headD none = scope

variable {a : Assembly} {scope : Option String} (between : a.IsBetween scope)

include between

theorem IsBetween.inside (o : OpenElement) (space : Option String) :
  (a.inside o space).IsBetween space
  where
    closed := between.closed
    outside := between.outside
    scope := rfl

/-- A written tag opens its element, in the namespace that it has in its normal form; default values
do not count. -/
theorem step_start {name : QName} (hown : name.member = none) {attributes : Attributes}
    (hnodup : (attributes.map Prod.fst).Nodup) (hspace : "xmlns" ∉ attributes.map Prod.fst)
    (defaulted : List (Label × String)) :
  a.step (.start { plainTag name.localPart (Writing.tagAttributes scope name attributes) with
      defaulted := defaulted })
    = .ok (a.inside ⟨{ name with space := Writing.innerScope scope name }, attributes, []⟩
        (Writing.innerScope scope name))
  := by
  have hattributes := attributesOf_tagAttributes scope name hnodup hspace
  simp only [step, openTag, between.scope]
  rw [show (plainTag name.localPart _).given = (plainTag "" _).given from rfl, hattributes]
  simp only [plainTag, QName.of?_localPart hown, Assembly.inside]

/-- Character data goes to the children of the innermost open element. -/
theorem step_characters (o : OpenElement) (space : Option String) {cs : List Char}
    (h : cs ≠ []) :
  (a.inside o space).step (.characters cs)
    = .ok (a.inside { o with children := pushText o.children cs } space)
  := by
  simp [step, addCharacters, Assembly.inside, between.closed, pushText, h]

theorem step_comment (text : List Char) :
  a.step (commentEvent text) = a.attach (.comment (String.ofList (Text.unifyLines text)))
  := by
  simp [commentEvent, step, addComment, between.outside]

omit between

theorem attach_inside (a : Assembly) (o : OpenElement) (space : Option String) (n : Node) :
  (a.inside o space).attach n
    = .ok (a.inside { o with children := o.children ++ [n] } space)
  := rfl

/-! ### Runs -/

/-- The assembly that events give, the latest of which comes first. -/
def Yields (es : List Event) (a : Assembly) : Prop :=
  ({} : Assembly).run es.reverse = .ok a

theorem run_append (a : Assembly) (before after : List Event) :
  a.run (before ++ after) = (a.run before).bind fun b => b.run after
  := by
  induction before generalizing a with
  | nil => rfl
  | cons e es ih =>
      simp only [List.cons_append, run, bind]
      cases a.step e with
      | error f => rfl
      | ok b => exact ih b

theorem Yields.append {es es' : List Event} {a b : Assembly} (h : Yields es a)
    (hrun : a.run es' = .ok b) :
  Yields (es'.reverse ++ es) b
  := by
  rw [Yields, List.reverse_append, List.reverse_reverse, run_append, h]
  exact hrun

theorem yields_nil :
  Yields [] {}
  := rfl

theorem Yields.emit {es : List Event} {a b : Assembly} (h : Yields es a) {e : Event}
    (he : a.step e = .ok b) :
  Yields (e :: es) b
  := by
  rw [Yields, List.reverse_cons, run_append, h]
  simp [Except.bind, run, he, bind]

/-! ### The top level -/

/-- An assembly at the top level, with the nodes there that are complete. -/
def atTop (declaration : Option Declaration) (children : List Node) : Assembly :=
  { document := ⟨declaration, children⟩ }

theorem isBetween_atTop (declaration : Option Declaration) (children : List Node) :
  (atTop declaration children).IsBetween none
  where
    closed := rfl
    outside := rfl
    scope := rfl

end Assembly

end Reading

end XmlDraft
