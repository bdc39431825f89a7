import TemplateExpr.Proofs.Grammar.Derivation
import TemplateExpr.Proofs.Outcome

/-!
# What the parser reads is derived

Whatever a parsing function takes from the front of the tokens is a phrase of its category, and
the tree it gives is the one the phrase denotes. The loops over operators, suffixes and filters
extend a phrase that was read before them.
-/

namespace TemplateExpr.Parser

variable {options : Options}

/-- The front of the tokens is a phrase of the category, and the rest is left. -/
def Reads (options : Options) (category : Category) (tokens : List Token) (tree : category.Tree)
    (rest : List Token) : Prop :=
  ∃ front, tokens = front ++ rest ∧ Derives options category (front.map Token.lexeme) tree

/-- The front of the tokens continues every phrase that denotes `left`. -/
def Extends (options : Options) (level : Level) (left : Node) (tokens : List Token) (node : Node)
    (rest : List Token) : Prop :=
  ∃ front, tokens = front ++ rest ∧ ∀ ls, Derives options (.expression level) ls left →
    Derives options (.expression level) (ls ++ front.map Token.lexeme) node

/-- A symbol is consumed from the front. -/
theorem consume_eq_ok {sign : Symbol} {tokens rest : List Token}
    (h : consume sign tokens = .ok rest) : ∃ index, tokens = ⟨.symbol sign, index⟩ :: rest := by
  cases tokens with
  | nil => simp [consume] at h
  | cons token tail =>
    obtain ⟨word, index⟩ := token
    simp only [consume] at h
    split at h
    case isTrue hword =>
      simp only [Except.ok.injEq] at h
      exact ⟨index, by simp_all⟩
    case isFalse => simp at h

/-- A name is taken from the front. -/
theorem name_eq_ok {tokens rest : List Token} {text : String}
    (h : Parser.name tokens = .ok (text, rest)) :
    ∃ index, tokens = ⟨.identifier text, index⟩ :: rest := by
  unfold Parser.name at h
  split at h
  · simp at h
  · simp only [Except.ok.injEq, Prod.mk.injEq] at h
    obtain ⟨rfl, rfl⟩ := h
    exact ⟨_, rfl⟩
  · simp at h

/-- A phrase of the next level that further operands continue. -/
theorem Reads.extend {level : Level} {tokens middle rest : List Token} {left node : Node}
    (h : Reads options (.expression level) tokens left middle)
    (hmore : Extends options level left middle node rest) :
    Reads options (.expression level) tokens node rest := by
  obtain ⟨front, rfl, hleft⟩ := h
  obtain ⟨more, rfl, hnode⟩ := hmore
  exact ⟨front ++ more, by simp, by simpa using hnode _ hleft⟩

/-- A phrase of a tighter level is one of the level above. -/
theorem Reads.tighter {level : Level} {tokens rest : List Token} {node : Node}
    (hlevel : level ≠ .chain) (h : Reads options (.expression level.next) tokens node rest) :
    Reads options (.expression level) tokens node rest := by
  obtain ⟨front, rfl, hnode⟩ := h
  exact ⟨front, rfl, .tighten hlevel hnode⟩

/-- A loop that reads nothing. -/
theorem Extends.refl (level : Level) (left : Node) (tokens : List Token) :
    Extends options level left tokens left tokens :=
  ⟨[], rfl, fun ls h => by simpa using h⟩

/-- A loop that reads one thing and goes on. -/
theorem Extends.step {level : Level} {left middle node : Node} {tokens rest : List Token}
    (front : List Token)
    (hmiddle : ∀ ls, Derives options (.expression level) ls left →
      Derives options (.expression level) (ls ++ front.map Token.lexeme) middle)
    (h : Extends options level middle tokens node rest) :
    Extends options level left (front ++ tokens) node rest := by
  obtain ⟨more, rfl, hnode⟩ := h
  refine ⟨front ++ more, by simp, fun ls hleft => ?_⟩
  simpa using hnode _ (hmiddle ls hleft)

/-- What each parsing function reads within a nesting budget. -/
structure Sound (options : Options) (budget : Nat) : Prop where
  expression {level : Level} {tokens rest : List Token} {node : Node} :
    expression options budget level tokens = .ok (node, rest) →
      Reads options (.expression level) tokens node rest
  filters {input node : Node} {tokens rest : List Token} :
    filters options budget input tokens = .ok (node, rest) →
      Extends options .filter input tokens node rest
  filterArguments {tokens rest : List Token} {arguments : List Node} :
    filterArguments options budget tokens = .ok (arguments, rest) →
      Reads options .filterArguments tokens arguments rest
  operands {level : Level} {left node : Node} {tokens rest : List Token} :
    operands options budget level left tokens = .ok (node, rest) →
      Extends options level left tokens node rest
  primary {tokens rest : List Token} {node : Node} :
    primary options budget tokens = .ok (node, rest) →
      Reads options (.expression .chain) tokens node rest
  suffixes {left node : Node} {tokens rest : List Token} :
    suffixes options budget left tokens = .ok (node, rest) →
      Extends options .chain left tokens node rest
  arguments {tokens rest : List Token} {arguments : List Node} :
    Parser.arguments options budget tokens = .ok (arguments, rest) →
      ∃ index, Reads options .arguments tokens arguments (⟨.symbol .closeParen, index⟩ :: rest)
  moreArguments {tokens rest : List Token} {arguments : List Node} :
    moreArguments options budget tokens = .ok (arguments, rest) →
      ∃ index, Reads options .someArguments tokens arguments (⟨.symbol .closeParen, index⟩ :: rest)
  elements {tokens rest : List Token} {elements : List Node} :
    Parser.elements options budget tokens = .ok (elements, rest) →
      ∃ index, Reads options .elements tokens elements (⟨.symbol .closeBracket, index⟩ :: rest)
  properties {tokens rest : List Token} {properties : List Property} :
    Parser.properties options budget tokens = .ok (properties, rest) →
      ∃ index, Reads options .properties tokens properties (⟨.symbol .closeBrace, index⟩ :: rest)
  property {tokens rest : List Token} {property : Property} :
    Parser.property options budget tokens = .ok (property, rest) →
      Reads options .property tokens property rest

/-- With no budget nothing is read. -/
theorem Sound.zero : Sound options 0 := by
  constructor <;> intros <;> rename_i h <;>
    simp [Parser.expression, Parser.filters, Parser.filterArguments, Parser.operands,
      Parser.primary, Parser.suffixes, Parser.arguments, Parser.moreArguments, Parser.elements,
      Parser.properties, Parser.property] at h

section Step

variable {budget : Nat} (ih : Sound options budget)
include ih

/-- A level of binary operators is its first operand and the further ones. -/
theorem Sound.binaryLevel {level : Level} {tokens rest : List Token} {node : Node}
    (hlevel : level ≠ .chain)
    (h : (do
      let (left, rest) ← Parser.expression options budget level.next tokens
      Parser.operands options budget level left rest) = .ok (node, rest)) :
    Reads options (.expression level) tokens node rest := by
  obtain ⟨⟨left, middle⟩, hleft, hmore⟩ := bind_eq_ok.mp h
  exact ((ih.expression hleft).tighter hlevel).extend (ih.operands hmore)

/-- At each level an expression of the level is read. -/
theorem Sound.expression_succ {level : Level} {tokens rest : List Token} {node : Node}
    (h : Parser.expression options (budget + 1) level tokens = .ok (node, rest)) :
    Reads options (.expression level) tokens node rest := by
  cases level with
  | filter =>
    simp only [Parser.expression, bind_eq_ok, Prod.exists] at h
    obtain ⟨input, middle, hinput, hmore⟩ := h
    exact ((ih.expression hinput).tighter (by decide)).extend (ih.filters hmore)
  | assignment =>
    simp only [Parser.expression, bind_eq_ok, Prod.exists] at h
    obtain ⟨target, middle, hread, h⟩ := h
    obtain ⟨ts, rfl, htarget⟩ := ih.expression hread
    split at h
    case h_1 index _ =>
      split at h
      case isTrue hassignable =>
        simp only [bind_eq_ok, Prod.exists, pure_eq_ok, Prod.mk.injEq] at h
        obtain ⟨value, last, hread, rfl, rfl⟩ := h
        obtain ⟨vs, rfl, hvalue⟩ := ih.expression hread
        exact ⟨ts ++ ⟨.symbol .assign, index⟩ :: vs, by simp,
          by simpa using .assignment htarget hassignable hvalue⟩
      case isFalse => simp at h
    case h_2 =>
      cases pure_eq_ok.mp h
      exact ⟨ts, rfl, .tighten (by decide) htarget⟩
  | conditional =>
    simp only [Parser.expression, bind_eq_ok, Prod.exists] at h
    obtain ⟨test, middle, hread, h⟩ := h
    obtain ⟨ts, rfl, htest⟩ := ih.expression hread
    split at h
    case h_1 index _ =>
      simp only [bind_eq_ok, Prod.exists, pure_eq_ok, Prod.mk.injEq] at h
      obtain ⟨alternate, middle, hread, next, hcolon, consequent, last, hlast, rfl, rfl⟩ := h
      obtain ⟨as, rfl, halternate⟩ := ih.expression hread
      obtain ⟨colonIndex, rfl⟩ := consume_eq_ok hcolon
      obtain ⟨cs, rfl, hconsequent⟩ := ih.expression hlast
      exact ⟨ts ++ ⟨.symbol .question, index⟩ :: (as ++ ⟨.symbol .colon, colonIndex⟩ :: cs),
        by simp, by simpa using .conditional htest halternate hconsequent⟩
    case h_2 =>
      cases pure_eq_ok.mp h
      exact ⟨ts, rfl, .tighten (by decide) htest⟩
  | or | and | equality | relational | additive | multiplicative =>
    simp only [Parser.expression] at h
    exact ih.binaryLevel (by decide) h
  | unary =>
    simp only [Parser.expression] at h
    split at h
    case h_1 sign index tail =>
      split at h
      case h_1 operator hoperator =>
        obtain rfl := UnaryOperator.symbol_of_ofSymbol? hoperator
        simp only [bind_eq_ok, Prod.exists, pure_eq_ok, Prod.mk.injEq] at h
        obtain ⟨argument, middle, hread, rfl, rfl⟩ := h
        obtain ⟨as, rfl, hargument⟩ := ih.expression hread
        exact ⟨⟨.symbol operator.symbol, index⟩ :: as, by simp,
          by simpa using .unary operator hargument⟩
      case h_2 => exact (ih.expression h).tighter (by decide)
    case h_2 => exact (ih.expression h).tighter (by decide)
  | chain =>
    simp only [Parser.expression, bind_eq_ok, Prod.exists] at h
    obtain ⟨first, middle, hfirst, hmore⟩ := h
    exact (ih.primary hfirst).extend (ih.suffixes hmore)

/-- The loop over filters continues its input by filters. -/
theorem Sound.filters_succ {input node : Node} {tokens rest : List Token}
    (h : Parser.filters options (budget + 1) input tokens = .ok (node, rest)) :
    Extends options .filter input tokens node rest := by
  unfold Parser.filters at h
  split at h
  case h_1 => simp_all
  case h_2 index tail hbudget =>
    obtain rfl := Nat.succ.inj hbudget
    simp only [bind_eq_ok, Prod.exists] at h
    obtain ⟨text, middle, hname, arguments, last, hread, h⟩ := h
    obtain ⟨nameIndex, rfl⟩ := name_eq_ok hname
    obtain ⟨as, rfl, harguments⟩ := ih.filterArguments hread
    refine Extends.step (⟨.symbol .pipe, index⟩ :: ⟨.identifier text, nameIndex⟩ :: as)
      (fun ls hinput => ?_) (ih.filters h)
    simpa using Derives.filter hinput harguments
  case h_3 =>
    cases h
    exact .refl _ _ _

/-- Filter arguments are read up to where no colon follows. -/
theorem Sound.filterArguments_succ {tokens rest : List Token} {arguments : List Node}
    (h : Parser.filterArguments options (budget + 1) tokens = .ok (arguments, rest)) :
    Reads options .filterArguments tokens arguments rest := by
  unfold Parser.filterArguments at h
  split at h
  case h_1 => simp_all
  case h_2 index tail hbudget =>
    obtain rfl := Nat.succ.inj hbudget
    simp only [bind_eq_ok, Prod.exists, pure_eq_ok, Prod.mk.injEq] at h
    obtain ⟨argument, middle, hfirst, arguments, last, hmore, rfl, rfl⟩ := h
    obtain ⟨as, rfl, hargument⟩ := ih.expression hfirst
    obtain ⟨bs, rfl, harguments⟩ := ih.filterArguments hmore
    exact ⟨⟨.symbol .colon, index⟩ :: (as ++ bs), by simp,
      by simpa using .filterArgument hargument harguments⟩
  case h_3 =>
    cases h
    exact ⟨[], rfl, .noFilterArguments⟩

/-- The loop over operators continues its left operand by operands of its level. -/
theorem Sound.operands_succ {level : Level} {left node : Node} {tokens rest : List Token}
    (h : Parser.operands options (budget + 1) level left tokens = .ok (node, rest)) :
    Extends options level left tokens node rest := by
  unfold Parser.operands at h
  split at h
  case h_1 => simp_all
  case h_2 sign index tail hbudget =>
    obtain rfl := Nat.succ.inj hbudget
    split at h
    case h_1 connective hconnective =>
      split at h
      case isTrue hlevel =>
        obtain rfl := Connective.symbol_of_ofSymbol? hconnective
        simp only [bind_eq_ok, Prod.exists] at h
        obtain ⟨right, middle, hread, hmore⟩ := h
        obtain ⟨rs, rfl, hright⟩ := ih.expression hread
        refine Extends.step (⟨.symbol connective.symbol, index⟩ :: rs)
          (fun ls hleft => ?_) (ih.operands hmore)
        simpa using Derives.connect connective hlevel hleft hright
      case isFalse =>
        cases h
        exact .refl _ _ _
    case h_2 =>
      cases h
      exact .refl _ _ _
  case h_3 =>
    cases h
    exact .refl _ _ _

/-- A primary is read as a chain without suffixes. -/
theorem Sound.primary_succ {tokens rest : List Token} {node : Node}
    (h : Parser.primary options (budget + 1) tokens = .ok (node, rest)) :
    Reads options (.expression .chain) tokens node rest := by
  cases tokens with
  | nil => simp [Parser.primary] at h
  | cons token tail =>
    obtain ⟨word, index⟩ := token
    simp only [Parser.primary] at h
    split at h
    case h_1 =>
      simp only [bind_eq_ok, Prod.exists, pure_eq_ok, Prod.mk.injEq] at h
      obtain ⟨node, middle, hread, last, hclose, rfl, rfl⟩ := h
      obtain ⟨ns, rfl, hnode⟩ := ih.expression hread
      obtain ⟨closeIndex, rfl⟩ := consume_eq_ok hclose
      exact ⟨⟨.symbol .openParen, index⟩ :: (ns ++ [⟨.symbol .closeParen, closeIndex⟩]), by simp,
        by simpa using .group hnode⟩
    case h_2 =>
      simp only [bind_eq_ok, Prod.exists, pure_eq_ok, Prod.mk.injEq] at h
      obtain ⟨elements, last, hread, rfl, rfl⟩ := h
      obtain ⟨closeIndex, es, rfl, helements⟩ := ih.elements hread
      exact ⟨⟨.symbol .openBracket, index⟩ :: (es ++ [⟨.symbol .closeBracket, closeIndex⟩]),
        by simp, by simpa using .array helements⟩
    case h_3 =>
      simp only [bind_eq_ok, Prod.exists, pure_eq_ok, Prod.mk.injEq] at h
      obtain ⟨properties, last, hread, rfl, rfl⟩ := h
      obtain ⟨closeIndex, ps, rfl, hproperties⟩ := ih.properties hread
      exact ⟨⟨.symbol .openBrace, index⟩ :: (ps ++ [⟨.symbol .closeBrace, closeIndex⟩]),
        by simp, by simpa using .object hproperties⟩
    case h_4 => simp at h
    case h_5 name =>
      cases h
      exact ⟨[⟨.identifier name, index⟩], rfl, .word name⟩
    case h_6 spelling value =>
      cases h
      exact ⟨[⟨.constant spelling value, index⟩], rfl, .constant spelling value⟩

/-- The loop over suffixes continues its chain. -/
theorem Sound.suffixes_succ {left node : Node} {tokens rest : List Token}
    (h : Parser.suffixes options (budget + 1) left tokens = .ok (node, rest)) :
    Extends options .chain left tokens node rest := by
  unfold Parser.suffixes at h
  split at h
  case h_1 => simp_all
  case h_2 index tail hbudget =>
    obtain rfl := Nat.succ.inj hbudget
    simp only [bind_eq_ok, Prod.exists] at h
    obtain ⟨arguments, last, hread, hmore⟩ := h
    obtain ⟨closeIndex, as, rfl, harguments⟩ := ih.arguments hread
    have hstep := Extends.step
      (⟨.symbol .openParen, index⟩ :: (as ++ [⟨.symbol .closeParen, closeIndex⟩]))
      (fun ls hleft => by simpa using .call hleft harguments) (ih.suffixes hmore)
    simpa using hstep
  case h_3 index tail hbudget =>
    obtain rfl := Nat.succ.inj hbudget
    simp only [bind_eq_ok, Prod.exists] at h
    obtain ⟨property, middle, hread, last, hclose, hmore⟩ := h
    obtain ⟨ps, rfl, hproperty⟩ := ih.expression hread
    obtain ⟨closeIndex, rfl⟩ := consume_eq_ok hclose
    have hstep := Extends.step
      (⟨.symbol .openBracket, index⟩ :: (ps ++ [⟨.symbol .closeBracket, closeIndex⟩]))
      (fun ls hleft => by simpa using .computedMember hleft hproperty) (ih.suffixes hmore)
    simpa using hstep
  case h_4 index tail hbudget =>
    obtain rfl := Nat.succ.inj hbudget
    simp only [bind_eq_ok, Prod.exists] at h
    obtain ⟨text, last, hname, hmore⟩ := h
    obtain ⟨nameIndex, rfl⟩ := name_eq_ok hname
    exact Extends.step [⟨.symbol .dot, index⟩, ⟨.identifier text, nameIndex⟩]
      (fun ls hleft => .namedMember text hleft) (ih.suffixes hmore)
  case h_5 =>
    cases h
    exact .refl _ _ _

/-- Arguments are read up to the parenthesis that is consumed. -/
theorem Sound.arguments_succ {tokens rest : List Token} {arguments : List Node}
    (h : Parser.arguments options (budget + 1) tokens = .ok (arguments, rest)) :
    ∃ index, Reads options .arguments tokens arguments (⟨.symbol .closeParen, index⟩ :: rest) := by
  unfold Parser.arguments at h
  split at h
  case h_1 => simp_all
  case h_2 index _ _ =>
    cases h
    exact ⟨index, [], rfl, .noArguments⟩
  case h_3 hbudget _ =>
    obtain rfl := Nat.succ.inj hbudget
    obtain ⟨index, as, rfl, harguments⟩ := ih.moreArguments h
    exact ⟨index, as, rfl, .arguments harguments⟩

/-- At least one argument is read up to the parenthesis that is consumed. -/
theorem Sound.moreArguments_succ {tokens rest : List Token} {arguments : List Node}
    (h : Parser.moreArguments options (budget + 1) tokens = .ok (arguments, rest)) :
    ∃ index,
      Reads options .someArguments tokens arguments (⟨.symbol .closeParen, index⟩ :: rest) := by
  simp only [Parser.moreArguments, bind_eq_ok, Prod.exists] at h
  obtain ⟨argument, middle, hread, h⟩ := h
  obtain ⟨as, rfl, hargument⟩ := ih.expression hread
  split at h
  case h_1 index _ =>
    simp only [bind_eq_ok, Prod.exists, pure_eq_ok, Prod.mk.injEq] at h
    obtain ⟨arguments, last, hmore, rfl, rfl⟩ := h
    obtain ⟨closeIndex, bs, rfl, harguments⟩ := ih.moreArguments hmore
    exact ⟨closeIndex, as ++ ⟨.symbol .comma, index⟩ :: bs, by simp,
      by simpa using .nextArgument hargument harguments⟩
  case h_2 =>
    simp only [bind_eq_ok, pure_eq_ok, Prod.mk.injEq] at h
    obtain ⟨last, hclose, rfl, rfl⟩ := h
    obtain ⟨closeIndex, rfl⟩ := consume_eq_ok hclose
    exact ⟨closeIndex, as, rfl, .lastArgument hargument⟩

/-- Elements are read up to the bracket that is consumed. -/
theorem Sound.elements_succ {tokens rest : List Token} {elements : List Node}
    (h : Parser.elements options (budget + 1) tokens = .ok (elements, rest)) :
    ∃ index, Reads options .elements tokens elements (⟨.symbol .closeBracket, index⟩ :: rest) := by
  unfold Parser.elements at h
  split at h
  case h_1 => simp_all
  case h_2 index _ _ =>
    cases h
    exact ⟨index, [], rfl, .noElements⟩
  case h_3 hbudget _ =>
    obtain rfl := Nat.succ.inj hbudget
    simp only [bind_eq_ok, Prod.exists] at h
    obtain ⟨element, middle, hread, h⟩ := h
    obtain ⟨es, rfl, helement⟩ := ih.expression hread
    split at h
    case h_1 index _ _ =>
      simp only [bind_eq_ok, Prod.exists, pure_eq_ok, Prod.mk.injEq] at h
      obtain ⟨elements, last, hmore, rfl, rfl⟩ := h
      obtain ⟨closeIndex, fs, rfl, helements⟩ := ih.elements hmore
      exact ⟨closeIndex, es ++ ⟨.symbol .comma, index⟩ :: fs, by simp,
        by simpa using .nextElement helement helements⟩
    case h_2 =>
      simp only [bind_eq_ok, pure_eq_ok, Prod.mk.injEq] at h
      obtain ⟨last, hclose, rfl, rfl⟩ := h
      obtain ⟨closeIndex, rfl⟩ := consume_eq_ok hclose
      exact ⟨closeIndex, es, rfl, .lastElement helement⟩

/-- Properties are read up to the brace that is consumed. -/
theorem Sound.properties_succ {tokens rest : List Token} {properties : List Property}
    (h : Parser.properties options (budget + 1) tokens = .ok (properties, rest)) :
    ∃ index,
      Reads options .properties tokens properties (⟨.symbol .closeBrace, index⟩ :: rest) := by
  unfold Parser.properties at h
  split at h
  case h_1 => simp_all
  case h_2 index _ _ =>
    cases h
    exact ⟨index, [], rfl, .noProperties⟩
  case h_3 hbudget _ =>
    obtain rfl := Nat.succ.inj hbudget
    simp only [bind_eq_ok, Prod.exists] at h
    obtain ⟨property, middle, hread, h⟩ := h
    obtain ⟨ps, rfl, hproperty⟩ := ih.property hread
    split at h
    case h_1 index _ _ =>
      simp only [bind_eq_ok, Prod.exists, pure_eq_ok, Prod.mk.injEq] at h
      obtain ⟨properties, last, hmore, rfl, rfl⟩ := h
      obtain ⟨closeIndex, qs, rfl, hproperties⟩ := ih.properties hmore
      exact ⟨closeIndex, ps ++ ⟨.symbol .comma, index⟩ :: qs, by simp,
        by simpa using .nextProperty hproperty hproperties⟩
    case h_2 =>
      simp only [bind_eq_ok, pure_eq_ok, Prod.mk.injEq] at h
      obtain ⟨last, hclose, rfl, rfl⟩ := h
      obtain ⟨closeIndex, rfl⟩ := consume_eq_ok hclose
      exact ⟨closeIndex, ps, rfl, .lastProperty hproperty⟩

/-- A property is read with its value, or as a shorthand. -/
theorem Sound.property_succ {tokens rest : List Token} {property : Property}
    (h : Parser.property options (budget + 1) tokens = .ok (property, rest)) :
    Reads options .property tokens property rest := by
  cases tokens with
  | nil => simp [Parser.property] at h
  | cons token tail =>
    obtain ⟨word, index⟩ := token
    simp only [Parser.property] at h
    split at h
    case h_1 spelling key =>
      simp only [bind_eq_ok, Prod.exists, pure_eq_ok, Prod.mk.injEq] at h
      obtain ⟨next, hcolon, value, last, hread, rfl, rfl⟩ := h
      obtain ⟨colonIndex, rfl⟩ := consume_eq_ok hcolon
      obtain ⟨vs, rfl, hvalue⟩ := ih.expression hread
      exact ⟨⟨.constant spelling key, index⟩ :: ⟨.symbol .colon, colonIndex⟩ :: vs, by simp,
        by simpa using .constantKey spelling key hvalue⟩
    case h_2 key =>
      split at h
      case h_1 colonIndex _ =>
        simp only [bind_eq_ok, Prod.exists, pure_eq_ok, Prod.mk.injEq] at h
        obtain ⟨value, last, hread, rfl, rfl⟩ := h
        obtain ⟨vs, rfl, hvalue⟩ := ih.expression hread
        exact ⟨⟨.identifier key, index⟩ :: ⟨.symbol .colon, colonIndex⟩ :: vs, by simp,
          by simpa using .namedKey key hvalue⟩
      case h_2 =>
        cases h
        exact ⟨[⟨.identifier key, index⟩], rfl, .shorthand key⟩
    case h_3 =>
      simp only [bind_eq_ok, Prod.exists, pure_eq_ok, Prod.mk.injEq] at h
      obtain ⟨key, middle, hfirst, next, hclose, last, hcolon, value, last, hread, rfl, rfl⟩ := h
      obtain ⟨ks, rfl, hkey⟩ := ih.expression hfirst
      obtain ⟨closeIndex, rfl⟩ := consume_eq_ok hclose
      obtain ⟨colonIndex, rfl⟩ := consume_eq_ok hcolon
      obtain ⟨vs, rfl, hvalue⟩ := ih.expression hread
      exact ⟨⟨.symbol .openBracket, index⟩ :: (ks ++ ⟨.symbol .closeBracket, closeIndex⟩ ::
        ⟨.symbol .colon, colonIndex⟩ :: vs), by simp, by simpa using .computedKey hkey hvalue⟩
    case h_4 => simp at h

end Step

/-- Every parsing function reads phrases of its category, whatever the budget. -/
theorem sound (options : Options) (budget : Nat) : Sound options budget := by
  induction budget with
  | zero => exact .zero
  | succ budget ih =>
    exact ⟨ih.expression_succ, ih.filters_succ, ih.filterArguments_succ, ih.operands_succ,
      ih.primary_succ, ih.suffixes_succ, ih.arguments_succ, ih.moreArguments_succ,
      ih.elements_succ, ih.properties_succ, ih.property_succ⟩

/-- Statements are read as a phrase of statements. -/
theorem statements_sound {budget : Nat} {tokens rest : List Token} {body : List Node}
    (h : statements options budget tokens = .ok (body, rest)) :
    Reads options .statements tokens body rest := by
  induction budget generalizing tokens body with
  | zero => simp [statements] at h
  | succ budget ih =>
    cases tokens with
    | nil =>
      cases h
      exact ⟨[], rfl, .noStatements⟩
    | cons token tail =>
      simp only [statements] at h
      split at h
      case isTrue =>
        simp only [bind_eq_ok, pure_eq_ok, Prod.exists, Prod.mk.injEq] at h
        obtain ⟨_, _, ⟨rfl, rfl⟩, h⟩ := h
        split at h
        case h_1 index _ hfirst =>
          simp only [bind_eq_ok, Prod.exists, pure_eq_ok, Prod.mk.injEq] at h
          obtain ⟨more, last, hmore, rfl, rfl⟩ := h
          obtain ⟨front, rfl, hbody⟩ := ih hmore
          exact ⟨⟨.symbol .semicolon, index⟩ :: front, hfirst, .emptyStatement hbody⟩
        case h_2 =>
          cases pure_eq_ok.mp h
          exact ⟨[], rfl, .noStatements⟩
      case isFalse =>
        simp only [bind_eq_ok, pure_eq_ok, Prod.exists, Prod.mk.injEq] at h
        obtain ⟨node, middle, hread, _, _, ⟨rfl, rfl⟩, h⟩ := h
        obtain ⟨ns, hns, hnode⟩ := (sound options budget).expression hread
        rw [hns]
        split at h
        case h_1 index _ =>
          simp only [bind_eq_ok, Prod.exists, pure_eq_ok, Prod.mk.injEq] at h
          obtain ⟨more, last, hmore, rfl, rfl⟩ := h
          obtain ⟨front, rfl, hbody⟩ := ih hmore
          exact ⟨ns ++ ⟨.symbol .semicolon, index⟩ :: front, by simp,
            by simpa using .nextStatement hnode hbody⟩
        case h_2 =>
          cases pure_eq_ok.mp h
          exact ⟨ns, rfl, .lastStatement hnode⟩

/-- What the parser accepts is a program of the grammar. -/
theorem derives_of_program {tokens : List Token} {tree : Node}
    (h : program options tokens = .ok tree) :
    Derives options .program (tokens.map Token.lexeme) tree := by
  simp only [program, bind_eq_ok, Prod.exists] at h
  obtain ⟨body, rest, hread, h⟩ := h
  obtain ⟨front, rfl, hbody⟩ := statements_sound hread
  cases rest with
  | nil =>
    cases pure_eq_ok.mp h
    simpa using .program hbody
  | cons token tail => simp at h

end TemplateExpr.Parser
