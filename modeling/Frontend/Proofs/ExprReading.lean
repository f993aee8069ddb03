import Frontend.Proofs.ExprSoundness
import Frontend.Proofs.SameTokens

-- The expressions that are read are the ones of the grammar, derived from all the tokens of the listing.

namespace Frontend

open Grammar TokenSource Surface Feed

variable {eof : Span} {e : Expr} {ts : List Token}

namespace Grammar

theorem expectEnd_gives (kinds : List TokenKind) :
    Gives (expectEnd kinds) ts fun _ rest => ts = [] ∧ rest = [] := by
  apply current_gives.bind
  intro _ _ found
  obtain ⟨rfl, rfl⟩ := found
  cases ts with
  | nil => exact .pure ⟨rfl, rfl⟩
  | cons t ts => exact .failAt

theorem wholeExpr_gives :
    Gives wholeExpr ts fun e rest => Derives (.infixed 0 e) ts [] ∧ rest = [] := by
  apply ((exprs_derived _).expr ts (Nat.lt_succ_self _)).bind
  intro e behind derives
  apply (expectEnd_gives []).bind
  intro _ _ found
  obtain ⟨rfl, rfl⟩ := found
  exact .pure ⟨derives, rfl⟩

theorem Derives.wholeExpr (derives : Derives (.infixed 0 e) ts []) :
    wholeExpr eof (feedOf ts) = .ok e (feedOf []) := by
  have read : expr eof (feedOf ts) = .ok e (feedOf []) :=
    (derives.complete .nil 0 (Nat.le_refl 0)).trans (operations_stop .nil)
  rw [Grammar.wholeExpr, bind_ok read]
  rfl

end Grammar

section Listings

variable {α : Type} {rule : Rule Observed α} {rule' : Rule TokenStream α} {rule'' : Rule Feed α} {source : String}
  (shown : ∀ eof, seen Observed.stream (rule eof (Observed.ofSource source)) =
    rule' eof (TokenStream.ofSource source))
  (agrees : ∀ eof whole, Carries (evenFaults eof whole) (Even whole 0) (same (Even whole 0)) rule rule'')

include shown agrees

-- What reads alike from the source and from its answers reads what the source is listed with,
theorem runOn_even {whole : List Answer} (start : Even whole 0 (Observed.ofSource source) ⟨whole, none⟩)
    (length : Nat) : runOn rule' (TokenStream.ofSource source) length = runOn rule'' ⟨whole, none⟩ length := by
  have same : runOn rule' (TokenStream.ofSource source) length = runOn rule (Observed.ofSource source) length := by
    rw [runOn, runOn, ← shown]
    cases rule (.empty length) (Observed.ofSource source) <;> rfl
  rw [same]
  rcases (agrees _ _).runs start rfl rfl with ⟨a, b, o, f, ran, ran', rfl, -⟩ |
      ⟨e, _, o, f, ran, ran', rfl, -⟩ | ⟨_, _, -, bad⟩
  · rw [ran, ran']
  · rw [ran, ran']
  · exact bad.elim

-- that is, the tokens of the listing.
theorem runOn_listed (listed : tokensOf source = .ok ts) (length : Nat) :
    runOn rule' (TokenStream.ofSource source) length = runOn rule'' (feedOf ts) length := by
  obtain ⟨whole, brings, start⟩ := listing source
  rw [Brings, listed] at brings
  subst brings
  exact runOn_even shown agrees start length

end Listings

theorem runOn_ok {σ α : Type} {rule : Rule σ α} {s : σ} {length : Nat} {a : α} :
    runOn rule s length = .ok a ↔ ∃ s', rule (.empty length) s = .ok a s' := by
  unfold runOn
  rcases rule (.empty length) s with ⟨b, s'⟩ | ⟨e, s'⟩ <;> simp

theorem readExpr_listed {source : String} (listed : tokensOf source = .ok ts) :
    readExpr source = runOn wholeExpr (feedOf ts) source.utf8ByteSize :=
  runOn_listed (wholeExpr_observed source) (fun _ _ => even_weave.wholeExpr) listed _

theorem readExpr_feed {source : String} (listed : tokensOf source = .ok ts) :
    readExpr source = .ok e ↔ ∃ s, wholeExpr (.empty source.utf8ByteSize) (feedOf ts) = .ok e s := by
  rw [readExpr_listed listed]
  exact runOn_ok

-- A source is read as an expression if and only if its tokens are listed and the grammar derives the
-- expression from all of them.
--
-- The grammar says which operators there are on which level and that those of one level associate to the
-- left, and that a closed list of types behind a name is the type arguments of the name.
theorem readExpr_iff_derives (source : String) (e : Expr) :
    readExpr source = .ok e ↔
      ∃ tokens, tokensOf source = .ok tokens ∧ Derives (.infixed 0 e) tokens [] := by
  constructor
  · intro read
    obtain ⟨o, -, -, listed⟩ := runOn_taken (wholeExpr_observed source _) (wholeExpr_goesWith source _) read
    obtain ⟨s, read⟩ := (readExpr_feed listed).1 read
    obtain ⟨_, -, derives, -⟩ := wholeExpr_gives _ e s read
    exact ⟨_, listed, derives⟩
  · intro found
    obtain ⟨tokens, listed, derives⟩ := found
    exact (readExpr_feed listed).2 ⟨_, derives.wholeExpr⟩

end Frontend
