import XmlDraft.Proofs.Listings
import XmlDraft.Proofs.Openings
import XmlDraft.Proofs.Resolving
import Mathlib.Data.List.DropRight

/-!
# Prefixes of roots

The full form takes names apart by itself, and knows fewer reasons to refuse a prefix than a reader
that takes them apart.  Main statement: where such a reader takes the name of a root, the full form
has a namespace for its prefix, if it has one, so that the local part of its name in Clark notation
is what stands behind the colon.
-/

namespace XmlDraft

/-- No name of ASCII holds a brace. -/
theorem brace_notMem {s : String} (h : isAsciiName s) :
  '\x7d' ∉ s.toList
  := by
  intro hmem
  rw [isAsciiName, Bool.and_eq_true] at h
  have hinner := Name.isInner_of_mem h.1 hmem
  have hbrace : Name.isInner '\x7d' = false := by decide
  exact Bool.false_ne_true (hbrace.symm.trans hinner)

namespace Export

/-- The local part of a name in Clark notation: what stands behind its last brace. -/
def localName (clark : String) : String :=
  String.ofList (clark.toList.rtakeWhile (· ≠ '\x7d'))

theorem localName_clarkOf (space : Option String) {localPart : String}
    (h : '\x7d' ∉ localPart.toList) :
  localName (clarkOf space localPart) = localPart
  := by
  have hkept : ∀ c ∈ localPart.toList.reverse, decide (c ≠ '\x7d') = true := by
    intro c hc
    exact decide_eq_true fun heq => h (heq ▸ List.mem_reverse.mp hc)
  rw [localName, ← String.toList_inj, String.toList_ofList, List.rtakeWhile]
  cases space with
  | none =>
      rw [clarkOf, List.takeWhile_eq_self_iff.mpr hkept, List.reverse_reverse]
  | some uri =>
      have htext : (clarkOf (some uri) localPart).toList
          = ('\x7b' :: uri.toList) ++ '\x7d' :: localPart.toList := by
        simp [clarkOf]
      have hstop : decide ('\x7d' ≠ '\x7d') = false := by decide
      rw [htext, List.reverse_append, List.reverse_cons, List.append_assoc,
        List.takeWhile_append_of_pos hkept, List.singleton_append, List.takeWhile_cons, hstop]
      simp

end Export

namespace Reading

/-! ### Tags without namespaces -/

variable {manner : Manner} {name : String} {attributes : Attributes} {tag : Tag}

/-- Where names are not taken apart a tag is what it was written with. -/
theorem ResolvesTo.eq_plainTag (h : ResolvesTo manner name attributes tag)
    (hmanner : manner.separator = none) (hnodup : (attributes.map Prod.fst).Nodup) :
  tag = plainTag name attributes
  := by
  obtain ⟨m, d, raw, direct, start, scope, spent, _, -, hdeclared, -, hname, hparts, htag⟩ := h
  obtain ⟨raws, attributes', isEmpty⟩ := raw
  dsimp only at hname hparts
  subst hname
  have hnothing : ∀ a ∈ attributes, Held.DeclaresNothing none a.1.toList := fun _ _ => .inl rfl
  have hread := Held.readAll_rawParts (m := m) d [] direct name.toList start
    attributes attributes' hparts
    (fun _ _ => by simp [Declarations.isPlainAt, hdeclared, IsTyped]) hnothing hnodup
    ⟨[], [], Scope.initial, [], spent⟩ (fun _ _ => List.not_mem_nil)
  have hnone : d.attributesOf name.toList = [] := by simp [Declarations.attributesOf, hdeclared]
  rw [hmanner] at htag
  simp only [resolveTag, hread, bind, Except.bind, hnone, tagOf] at htag
  cases htag
  simp [plainTag, wholeLabel, Function.comp_def]

/-! ### Tags with namespaces -/

/-- Attributes that bind a prefix: one of them declares it with a namespace that may be declared, or
it is the one that is always bound. -/
def Binds (attributes : Attributes) (p : List Char) : Prop :=
  p = "xml".toList ∨ ∃ a ∈ attributes, declaredPrefix? a.1.toList = some p
    ∧ a.2 ≠ "" ∧ p ≠ "xmlns".toList ∧ a.2.toList ≠ xmlSpace ∧ a.2.toList ≠ xmlnsSpace

/-- What is in scope behind the attributes of a tag was in scope before them or is declared by one
of them. -/
theorem Held.readAll_scope {m : Medium} {d : Declarations} (hd : d.attributes = [])
    {opened : List (List Char)} {separator : Char} {direct : Option Nat} {element start : List Char}
    {raws : List RawAttribute}
    (hraws : raws.map (fun a => (a.name, a.value)) = Medium.rawParts attributes) {h h' : Held}
    (hread : h.readAll m d opened (some separator) direct element start raws = .ok h') :
  ∀ x ∈ h'.scope, x ∈ h.scope ∨ ∃ a ∈ attributes, declaredPrefix? a.1.toList = some x.1
    ∧ a.2.toList = x.2 ∧ Scope.refusal? separator x.1 x.2 = none
  := by
  induction attributes generalizing raws h with
  | nil =>
      cases List.map_eq_nil_iff.mp hraws
      cases hread
      exact fun x hx => .inl hx
  | cons a others ih =>
      obtain ⟨raw, raws, rfl, hraw, hraws⟩ := List.map_eq_cons_iff.mp hraws
      obtain ⟨next, hnext, hread⟩ := bind_ok hread
      obtain ⟨hname, hvalue⟩ := Prod.mk.injEq .. ▸ hraw
      have htyped : IsTyped (d.isPlainAt element a.1.toList) a.2.toList := by
        simp [Declarations.isPlainAt, hd, IsTyped]
      have hvalue' := attributeValue_escapeValue (m := m) d opened direct h.spent htyped
      unfold Declarations.isPlainAt at hvalue'
      -- the attribute declares a namespace, or leaves the scope as it is
      have hscope : ∀ x ∈ next.scope, x ∈ h.scope ∨ (declaredPrefix? a.1.toList = some x.1
          ∧ a.2.toList = x.2 ∧ Scope.refusal? separator x.1 x.2 = none) := by
        unfold Held.read at hnext
        split_ifs at hnext
        simp only [hname, hvalue, hvalue', add, Option.bind_some] at hnext
        cases hdeclared : declaredPrefix? a.1.toList with
        | none =>
            rw [hdeclared] at hnext
            cases hnext
            exact fun x hx => .inl hx
        | some p =>
            rw [hdeclared] at hnext
            dsimp only [Option.map_some] at hnext
            split at hnext
            · cases hnext
            · rename_i hrefusal
              cases hnext
              intro x hx
              rcases List.mem_cons.mp hx with rfl | hx
              · exact .inr ⟨rfl, rfl, hrefusal⟩
              · exact .inl hx
      intro x hx
      rcases ih hraws hread x hx with hx | ⟨b, hb, hdeclares⟩
      · exact (hscope x hx).imp_right fun hdeclares => ⟨a, List.mem_cons_self, hdeclares⟩
      · exact .inr ⟨b, List.mem_cons_of_mem _ hb, hdeclares⟩

/-- What stands in front of the first colon is passed over. -/
theorem span_colon {p : List Char} (hp : ':' ∉ p) (localPart : List Char) :
  (p ++ ':' :: localPart).span (· ≠ ':') = (p, ':' :: localPart)
  := by
  have hkept : ∀ c ∈ p, decide (c ≠ ':') = true :=
    fun c hc => decide_eq_true fun heq => hp (heq ▸ hc)
  have hstop : decide (':' ≠ ':') = false := by decide
  rw [List.span_eq_takeWhile_dropWhile, List.takeWhile_append_of_pos hkept,
    List.dropWhile_append_of_pos hkept, List.takeWhile_cons, List.dropWhile_cons, hstop]
  simp

theorem splitName?_append {p : List Char} (hp : ':' ∉ p) (localPart : List Char) :
  splitName? (p ++ ':' :: localPart) = some (p, localPart)
  := by
  rw [splitName?, span_colon hp]

theorem splitName?_ok {cs p localPart : List Char} (h : splitName? cs = some (p, localPart)) :
  cs = p ++ ':' :: localPart ∧ ':' ∉ p
  := by
  by_cases hcolon : ':' ∈ cs
  · obtain ⟨before, after, rfl, hbefore⟩ := List.eq_append_cons_of_mem hcolon
    rw [splitName?_append hbefore] at h
    cases h
    exact ⟨rfl, hbefore⟩
  · rw [splitName?_eq_none hcolon] at h
    cases h

/-- A namespace that may be declared for a prefix is one that binds it. -/
theorem Scope.refusal?_none {separator : Char} {p uri : List Char}
    (h : Scope.refusal? separator p uri = none) (hp : p ≠ []) :
  p = "xml".toList ∨ (uri ≠ [] ∧ p ≠ "xmlns".toList ∧ uri ≠ xmlSpace ∧ uri ≠ xmlnsSpace)
  := by
  unfold refusal? at h
  split_ifs at h with hempty hxmlns hseparator hxml huri hreserved
  · exact .inl hxml
  · simp only [Bool.or_eq_true, decide_eq_true_eq, not_or] at hreserved
    refine .inr ⟨fun huri => hempty ?_, hxmlns, hreserved.1, hreserved.2⟩
    simp [huri, hp]

/-- The attributes of a tag bind the prefix of its name, if it has one. -/
def BindsName (attributes : Attributes) (name : String) : Prop :=
  ':' ∉ name.toList ∨ ∃ p localPart, name.toList = p ++ ':' :: localPart
    ∧ p ≠ [] ∧ ':' ∉ p ∧ localPart ≠ [] ∧ Binds attributes p

/-- Where names are taken apart the name of a tag keeps its form, and its prefix is bound. -/
theorem ResolvesTo.binds (h : ResolvesTo manner name attributes tag) {separator : Char}
    (hmanner : manner.separator = some separator) :
  tag.name.raw = name ∧ BindsName attributes name
  := by
  obtain ⟨m, d, raw, direct, start, scope, spent, _, halphabet, hdeclared, hqualified, hname, hparts,
    htag⟩ := h
  have hdivides : m.alphabet.divides := by
    rw [halphabet, Manner.alphabet, hmanner]
    rfl
  rw [hmanner] at htag
  obtain ⟨held, hread, htag⟩ := bind_ok htag
  have hnone : d.attributesOf raw.name = [] := by simp [Declarations.attributesOf, hdeclared]
  obtain ⟨all, hall, htag⟩ := bind_ok htag
  rw [hnone] at hall
  cases hall
  obtain ⟨found, hfound, htag⟩ := bind_ok htag
  cases htag
  obtain ⟨labels, -, hfound⟩ := bind_ok hfound
  obtain ⟨label, hlabel, hfound⟩ := bind_ok hfound
  cases hfound
  rw [hname] at hlabel
  have hscope := Held.readAll_scope hdeclared hparts hread
  unfold BindsName
  generalize hwhole : name.toList = cs at hqualified hlabel ⊢
  cases hqualified with
  | plain hplain =>
      have hcolon := hplain.colon_notMem hdivides
      rw [labelOf_whole hcolon] at hlabel
      cases hlabel
      exact ⟨by rw [← hwhole, String.ofList_toList], .inl hcolon⟩
  | @divided p localPart hp hlocal =>
      have hcolon := hp.colon_notMem hdivides
      have hne {n : List Char} (hn : IsPlainName m.alphabet n) : n ≠ [] := by
        rintro rfl
        cases hn.start
      rw [labelOf, splitName?_append hcolon] at hlabel
      dsimp only at hlabel
      split at hlabel
      · rename_i uri huri
        cases hlabel
        refine ⟨by rw [← hwhole, String.ofList_toList],
          .inr ⟨p, localPart, rfl, hne hp, hcolon, hne hlocal, ?_⟩⟩
        obtain ⟨hlookup, -⟩ := Option.filter_eq_some_iff.mp huri
        obtain ⟨before, after, hmem, -⟩ := List.lookup_eq_some_iff.mp hlookup
        rcases hscope (p, uri) (by rw [hmem]; simp) with
          hinitial | ⟨a, ha, hdeclared, hvalue, hrefusal⟩
        · exact .inl (congrArg Prod.fst (List.mem_singleton.mp hinitial))
        · refine (Scope.refusal?_none hrefusal (hne hp)).imp_right fun hbinds => ?_
          refine ⟨a, ha, hdeclared, ?_, hbinds.2.1, hvalue ▸ hbinds.2.2⟩
          rintro heq
          exact hbinds.1 (by rw [← hvalue, heq]; rfl)
      · cases hlabel

end Reading

namespace Export

open Reading (Binds BindsName Tag plainTag declaredPrefix? splitName? splitName?_append
  splitName?_eq_none splitName?_ok)

namespace Scoping

/-! ### Scopes of the full form -/

variable {s : Scoping} {p uri : String}

@[simp]
theorem find_scope (s : Scoping) (f : Finding) :
  (s.find f).scope = s.scope
  := rfl

@[simp]
theorem look_scope (s : Scoping) (name : String) :
  (s.look name).scope = s.scope
  := by
  unfold look
  split_ifs <;> rfl

/-- A namespace that is bound comes into scope, unless it is one that a prefix may not have. -/
theorem bind_scope (s : Scoping) (p uri : String) :
  (s.bind p uri).scope = if p = "xml" ∨ uri = "http://www.w3.org/XML/1998/namespace" ∨ p = "xmlns"
      ∨ uri = "http://www.w3.org/2000/xmlns/" ∨ (uri = "" ∧ p ≠ "")
    then s.scope else (p, uri) :: s.scope
  := by
  unfold bind
  extract_lets noted isXml
  have hnoted : noted.scope = s.scope := by
    unfold noted
    split_ifs <;> rfl
  split_ifs <;> simp_all [isXml]

/-- A prefix that has a namespace in scope. -/
def IsBound (s : Scoping) (p : String) : Prop :=
  (s.space? p).isSome

theorem isBound_iff :
  s.IsBound p ↔ ∃ uri, s.scope.lookup p = some uri ∧ uri ≠ ""
  := by
  rw [IsBound, space?, nonempty?, Option.isSome_filter]
  cases s.scope.lookup p <;> simp

/-- A prefix that has a namespace keeps one, whatever is bound. -/
theorem IsBound.bind (h : s.IsBound p) (hp : p ≠ "") (q uri : String) :
  (s.bind q uri).IsBound p
  := by
  rw [isBound_iff] at h ⊢
  rw [bind_scope]
  split_ifs with hbad
  · exact h
  · rw [List.lookup_cons]
    split
    · rename_i heq
      have hq : p = q := by simpa using heq
      refine ⟨uri, rfl, fun huri => hbad ?_⟩
      simp [huri, ← hq, hp]
    · exact h

/-- A declaration of a prefix gives it the namespace that it may have. -/
theorem isBound_bind (s : Scoping) (hp : p ≠ "") (hxml : p ≠ "xml") (hxmlns : p ≠ "xmlns")
    (huri : uri ≠ "") (hreserved : uri ≠ "http://www.w3.org/XML/1998/namespace")
    (hreserved' : uri ≠ "http://www.w3.org/2000/xmlns/") :
  (s.bind p uri).IsBound p
  := by
  rw [isBound_iff, bind_scope, if_neg (by simp [hp, hxml, hxmlns, huri, hreserved, hreserved'])]
  exact ⟨uri, by simp, huri⟩

theorem bindAll_cons (s : Scoping) (a : Reading.Label × String)
    (others : List (Reading.Label × String)) :
  s.bindAll (a :: others) = (match declared? a.1.raw with
    | some q => (s.look a.1.raw).bind q a.2
    | none => s.look a.1.raw).bindAll others
  := rfl

theorem IsBound.bindAll (h : s.IsBound p) (hp : p ≠ "")
    (attributes : List (Reading.Label × String)) :
  (s.bindAll attributes).IsBound p
  := by
  induction attributes generalizing s with
  | nil => exact h
  | cons a others ih =>
      have hlook : (s.look a.1.raw).IsBound p := by rwa [isBound_iff, look_scope, ← isBound_iff]
      rw [bindAll_cons]
      split
      · exact ih (hlook.bind hp _ _)
      · exact ih hlook

/-- A name that a colon divides is split there. -/
theorem split_append {name : String} {q localPart : List Char}
    (hname : name.toList = q ++ ':' :: localPart) (hq : q ≠ []) (hcolon : ':' ∉ q)
    (hlocal : localPart ≠ []) :
  split name = (some (String.ofList q), String.ofList localPart)
  := by
  rw [split, hname, Reading.span_colon hcolon]
  simp [hq, hlocal]

theorem split_whole {name : String} (h : ':' ∉ name.toList) :
  split name = (none, name)
  := by
  rw [split, Reading.span_whole h]

/-- An attribute declares a prefix in the full form if it does where names are taken apart. -/
theorem declared?_of_prefix {name : String} {q : List Char}
    (h : declaredPrefix? name.toList = some q) (hq : q ≠ []) :
  declared? name = some (String.ofList q)
  := by
  unfold declaredPrefix? at h
  split_ifs at h with hwhole
  · cases h
    exact absurd rfl hq
  · have hne : name ≠ "xmlns" := fun heq => hwhole (by rw [heq])
    rw [declared?, if_neg hne]
    split at h
    · rename_i first localPart hsplit
      split_ifs at h with hfirst
      cases h
      obtain ⟨hname, hcolon⟩ := splitName?_ok hsplit
      have hfirst' : first ≠ [] := by
        rw [hfirst]
        decide
      rw [split_append hname hfirst' hcolon hq, hfirst, String.ofList_toList]
      rfl
    · cases h

/-- The attributes of a tag bind a prefix in the full form if they do where names are taken
apart. -/
theorem isBound_of_binds {attributes : Attributes} {q : List Char} (h : Binds attributes q)
    (hq : q ≠ []) (hxml : s.IsBound "xml") (name : String) :
  (s.bindAll (plainTag name attributes).given).IsBound (String.ofList q)
  := by
  have hne : String.ofList q ≠ "" := mt String.ofList_eq_empty_iff.mp hq
  rcases h with rfl | ⟨a, ha, hdeclared, hvalue, hxmlns, hreserved, hreserved'⟩
  · rw [String.ofList_toList] at hne ⊢
    exact hxml.bindAll hne _
  · by_cases hqxml : q = "xml".toList
    · rw [hqxml, String.ofList_toList] at hne ⊢
      exact hxml.bindAll hne _
    · obtain ⟨before, after, rfl⟩ := List.append_of_mem ha
      have hgiven : (plainTag name (before ++ a :: after)).given
          = (plainTag name before).given
            ++ (⟨a.1, none, a.1⟩, a.2) :: (plainTag name after).given := by
        simp [plainTag]
      have hsame {word : String} (hword : q ≠ word.toList) : String.ofList q ≠ word :=
        fun heq => hword (by rw [← heq, String.toList_ofList])
      have hother {uri : String} (huri : a.2.toList ≠ uri.toList) : a.2 ≠ uri :=
        fun heq => huri (by rw [heq])
      rw [hgiven, bindAll, List.foldl_append]
      refine IsBound.bindAll (s := Scoping.bindAll _ [_]) ?_ hne _
      rw [bindAll_cons, declared?_of_prefix hdeclared hq]
      exact isBound_bind _ hne (hsame hqxml) (hsame hxmlns) hvalue (hother hreserved)
        (hother hreserved')

/-! ### The name of the root -/

theorem resolveAll_scope (s : Scoping) (attributes : List (Reading.Label × String)) :
  (s.resolveAll attributes).1.scope = s.scope
  := by
  have hresolve (s : Scoping) (name : String) : (s.resolve none name).1.scope = s.scope := by
    unfold resolve
    split
    · split <;> rfl
    · rfl
  have hfold (f : Scoping × List (String × String) → Reading.Label × String →
        Scoping × List (String × String)) (hf : ∀ p a, (f p a).1.scope = p.1.scope)
      (kept : List (Reading.Label × String)) (p : Scoping × List (String × String)) :
      (kept.foldl f p).1.scope = p.1.scope := by
    induction kept generalizing p with
    | nil => rfl
    | cons a others ih => rw [List.foldl_cons, ih, hf]
  unfold resolveAll
  dsimp only
  split_ifs
  · exact hfold _ (fun p a => hresolve p.1 a.1.raw) _ _
  · exact hfold _ (fun p a => hresolve p.1 a.1.raw) _ _

/-- The name of a root in Clark notation has the local part of its name, if no colon divides it or
the attributes of the root bind its prefix. -/
theorem start_localName {name : String} {attributes : Attributes} (hxml : s.IsBound "xml")
    (hbrace : '\x7d' ∉ name.toList) (hname : BindsName attributes name) :
  localName (s.start (plainTag name attributes)).2.1 = ModelNode.localPart name
  := by
  have hlook : (s.look name).IsBound "xml" := by rwa [isBound_iff, look_scope, ← isBound_iff]
  let inner := (s.look name).bindAll (plainTag name attributes).given
  let last := (inner.resolveAll (plainTag name attributes).given).1
  have hstart : (s.start (plainTag name attributes)).2.1
      = (last.resolve (last.space? "") name).2 := rfl
  rw [hstart, resolve]
  rcases hname with hcolon | ⟨q, localPart, hname, hq, hcolon, hlocal, hbinds⟩
  · rw [split_whole hcolon]
    dsimp only
    rw [localName_clarkOf _ hbrace, ModelNode.localPart, splitName?_eq_none hcolon]
    rfl
  · have hbound : last.IsBound (String.ofList q) := by
      rw [isBound_iff, resolveAll_scope, ← isBound_iff]
      exact isBound_of_binds hbinds hq hlook name
    obtain ⟨uri, huri⟩ := Option.isSome_iff_exists.mp hbound
    have hbrace' : '\x7d' ∉ (String.ofList localPart).toList := by
      rw [String.toList_ofList]
      exact fun hmem => hbrace (by simp [hname, hmem])
    rw [split_append hname hq hcolon hlocal]
    dsimp only
    rw [huri]
    dsimp only
    rw [localName_clarkOf _ hbrace', ModelNode.localPart, hname, splitName?_append hcolon]
    rfl

end Scoping

end Export

end XmlDraft
