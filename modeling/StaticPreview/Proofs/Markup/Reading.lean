import StaticPreview.Markup.Render
import StaticPreview.Proofs.Markup.Name
import StaticPreview.Proofs.Markup.Written

/-! # What was read is rendered

Nodes that were read come from tokens: their elements have tag names, and their text runs hold no
brace that begins a container. What is proved of such nodes and their HTML one by one holds of
everything that is rendered.
-/
namespace StaticPreview.Markup

namespace Token

def Named : Token → Prop
  | element name _ _ => IsTagName name
  | fragment _ => True
  | container _ => True
  | text _ => True

theorem named_of_element? {s rest : List Char} {t : Token} (h : element? s = some (t, rest)) :
    t.Named := by
  unfold element? at h
  split at h
  next name body after hname _ =>
    have hn := isTagName_of_tagName? hname
    dsimp only at h
    split at h
    · obtain ⟨rfl, -⟩ := Prod.mk.inj (Option.some.inj h)
      exact hn
    · split at h <;>
      · obtain ⟨rfl, -⟩ := Prod.mk.inj (Option.some.inj h)
        exact hn
  next => simp at h

theorem named_of_next? {s rest : List Char} {t : Token} (h : next? s = some (t, rest)) :
    t.Named := by
  unfold next? at h
  split at h
  next => simp at h
  next =>
    split at h <;>
    · obtain ⟨rfl, -⟩ := Prod.mk.inj (Option.some.inj h)
      trivial
  next r _ =>
    cases he : element? r with
    | none =>
      rw [he] at h
      obtain ⟨rfl, -⟩ := Prod.mk.inj (Option.some.inj h)
      trivial
    | some p =>
      rw [he] at h
      obtain rfl := Option.some.inj h
      exact named_of_element? he
  next =>
    split at h <;>
    · obtain ⟨rfl, -⟩ := Prod.mk.inj (Option.some.inj h)
      trivial
  next =>
    obtain ⟨rfl, -⟩ := Prod.mk.inj (Option.some.inj h)
    trivial

theorem ne_text_of_element? {f rest : List Char} {t : Token} (h : element? f = some (t, rest))
    (run : List Char) : t ≠ text run := by
  unfold element? at h
  split at h
  next =>
    dsimp only at h
    split at h
    · obtain ⟨rfl, -⟩ := Prod.mk.inj (Option.some.inj h)
      nofun
    · split at h <;>
      · obtain ⟨rfl, -⟩ := Prod.mk.inj (Option.some.inj h)
        nofun
  next => cases h

theorem text_of_textFrom {c : Char} {f rest run : List Char} (hc : c ≠ '\x7b')
    (h : textFrom c f = (text run, rest)) : run ++ rest = c :: f ∧ ∀ d ∈ run, d ≠ '\x7b' := by
  obtain ⟨hrun, rfl⟩ := Prod.mk.inj h
  obtain rfl := Token.text.inj hrun
  refine ⟨by simp, List.forall_mem_cons.mpr ⟨hc, fun d hd => ?_⟩⟩
  have hplain := List.all_eq_true.mp List.all_takeWhile d hd
  simp only [Bool.and_eq_true, bne_iff_ne] at hplain
  exact hplain.2

/-- A text token goes on to the next brace at most. -/
theorem text_of_next? {f rest run : List Char} (h : next? f = some (text run, rest)) :
    run ++ rest = f ∧ ∀ c ∈ run, c ≠ '\x7b' := by
  unfold next? at h
  split at h
  next => cases h
  next => split at h <;> cases h
  next r _ =>
    cases he : element? r with
    | none =>
      rw [he, Option.getD_none] at h
      exact text_of_textFrom (by decide) (Option.some.inj h)
    | some p =>
      rw [he] at h
      obtain rfl := Option.some.inj h
      exact absurd rfl (ne_text_of_element? he run)
  next => split at h <;> cases h
  next c r _ _ hc => exact text_of_textFrom hc (Option.some.inj h)

end Token

/-- What holds of a node and its HTML, once it holds of what is inside, and is kept when the HTML of
a node is put before that of others, holds of all that is rendered of a text. The content of a token
and the text behind it are shorter than the text, so the proof follows the reading. -/
theorem rendered_induction {P : List Node → List Char → Prop} {f : List Char} (nil : P [] [])
    (cons : ∀ {t : Token} {children : List Node} {depth : Nat} {first : List Char}
      {more : List Node} {rest : List Char}, t.Named →
      (∀ run, t = .text run → ∀ c ∈ run, c ∈ f ∧ c ≠ '\x7b') →
      (∀ inner, htmlOfNodes (depth + 1) children = .ok inner → P children inner) →
      (t.node children).html depth = .ok first → P more rest →
      P (t.node children :: more) (first ++ rest))
    {depth : Nat} {out : List Char} (h : htmlOfNodes depth (Node.parse f) = .ok out) :
    P (Node.parse f) out := by
  have hpart (s : List Char) (hs : s ⊆ f) : ∀ {depth out},
      htmlOfNodes depth (Node.parse s) = .ok out → P (Node.parse s) out := by
    induction s using Node.parse.induct with
    | case1 s hnext =>
      intro depth out h
      obtain rfl := Token.next?_eq_none_iff.mp hnext
      rw [Node.parse_nil, htmlOfNodes] at h
      obtain rfl := Except.ok.inj h
      rw [Node.parse_nil]
      exact nil
    | case2 s t rest hnext _ ihcontent ihrest =>
      intro depth out h
      rw [Node.parse_of_next? hnext] at h ⊢
      obtain ⟨first, more, hfirst, hmore, rfl⟩ := htmlOfNodes_cons_eq_ok_iff.mp h
      obtain ⟨opening, closing, -, hcovered⟩ := Token.covers_of_next? hnext
      have hcontent : t.content ⊆ f := fun c hc => hs (by simp [← hcovered, hc])
      have hrest : rest ⊆ f := fun c hc => hs (by simp [← hcovered, hc])
      have hrun : ∀ run, t = .text run → ∀ c ∈ run, c ∈ f ∧ c ≠ '\x7b' := by
        rintro run rfl c hc
        obtain ⟨hread, hbrace⟩ := Token.text_of_next? hnext
        exact ⟨hs (hread ▸ List.mem_append_left rest hc), hbrace c hc⟩
      exact cons (Token.named_of_next? hnext) hrun (fun _ => ihcontent hcontent) hfirst
        (ihrest hrest hmore)
  exact hpart f (List.Subset.refl f) h

end StaticPreview.Markup
