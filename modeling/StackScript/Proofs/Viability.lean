import StackScript.Proofs.Scripts

set_option autoImplicit false

namespace StackScript

open StackScript.Derivation

def Category.Viable (category : Category) (levels : Nat) (part : List Token) : Prop :=
  ∃ derivation : Derivation category, derivation.nesting < levels ∧ part <+: derivation.tokens

namespace Reader

def Fails {α : Type} (reader : List Token → Except CompileError α) (tokens : List Token) : Prop :=
  ∃ error, reader tokens = .error error

/-- What is wrong with tokens that are not read: they go too deep, or they begin as some that are
read, up to one behind which none are. -/
inductive Blames (size : Nat) (viable doomed : List Token → Prop) :
    List Token → CompileError → Prop
  | tooDeep (tokens : List Token) (span : Span) :
      Blames size viable doomed tokens (.fault .nestingTooDeep span)
  | stuck (front : List Token) {rest : List Token} (expected : Fault.Expected)
      (begins : viable front)
      (ends : ∀ token behind, rest = token :: behind → ∀ other, doomed (front ++ token :: other)) :
      Blames size viable doomed (front ++ rest) (unexpected size expected rest)

theorem Blames.behind {size : Nat} {viable doomed wider fallen : List Token → Prop}
    {tokens : List Token} {error : CompileError} (blames : Blames size viable doomed tokens error)
    (front : List Token)
    (extend : ∀ part, part <+: tokens → viable part → wider (front ++ part))
    (fails : ∀ rest, rest.head? = tokens.head? → doomed rest → fallen (front ++ rest)) :
    Blames size wider fallen (front ++ tokens) error := by
  cases blames with
  | tooDeep tokens span => exact .tooDeep _ span
  | @stuck part rest expected begins ends =>
    rw [← List.append_assoc]
    refine .stuck (front ++ part) expected (extend part (List.prefix_append _ _) begins) ?_
    rintro token behind rfl other
    rw [List.append_assoc]
    refine fails (part ++ token :: other) ?_ (ends token behind rfl other)
    rw [List.head?_append, List.head?_append, List.head?_cons, List.head?_cons]

theorem Blames.bind {size : Nat} {α β : Type} {viable wider : List Token → Prop}
    {first : List Token → Except CompileError α} {tokens : List Token} {error : CompileError}
    (blames : Blames size viable (Fails first) tokens error)
    (extend : ∀ part, viable part → wider part) (next : α → Except CompileError β) :
    Blames size wider (Fails fun tokens => first tokens >>= next) tokens error := by
  refine blames.behind [] (fun part _ => extend part) ?_
  rintro rest - ⟨problem, fails⟩
  refine ⟨problem, ?_⟩
  dsimp only
  rw [List.nil_append, fails, error_bind]

/-- Stops where nothing continues the form, and fails only for a token that is to blame. -/
structure Points (size : Nat) (reader : Reader) (form : Form) (levels : Nat) : Prop where
  stops : ∀ {tokens rest : List Token} {phrase : Phrase}, reader tokens = .ok (phrase, rest) →
    form.Stops rest
  blames : ∀ {tokens : List Token} {error : CompileError}, reader tokens = .error error →
    Blames size ((Category.form form).Viable levels) (Fails reader) tokens error

variable {size levels : Nat} {expression factor operand : Reader}

theorem points_tooDeep (form : Form) : Points size (tooDeep size) form 0 where
  stops success := by cases success
  blames {tokens error} failure := by
    cases failure
    exact .tooDeep tokens _

theorem atom_of_other {token : Token} (leafless : token.kind.leaf? = none)
    (other : token.kind ≠ .symbol .openParen) (rest : List Token) :
    atom size expression (token :: rest) =
      .error (unexpected size .expression (token :: rest)) := by
  obtain ⟨kind, span⟩ := token
  cases kind with
  | keyword word => cases word <;> simp_all [Token.Kind.leaf?, atom]
  | symbol sign => cases sign <;> simp_all [atom]
  | newline => simp [atom]
  | _ => simp [Token.Kind.leaf?] at leafless

theorem viable_nil_atom : (Category.form .atom).Viable (levels + 1) [] :=
  ⟨.leaf ⟨.name, ⟨0, 0⟩⟩ .variableName rfl, Nat.succ_pos levels, List.nil_prefix⟩

theorem blames_parenthesized (reads : Reads expression .expression levels)
    (points : Points size expression .expression levels) {opening : Span} {rest : List Token}
    {error : CompileError}
    (failure : atom size expression (⟨.symbol .openParen, opening⟩ :: rest) = .error error) :
    Blames size ((Category.form .atom).Viable (levels + 1)) (Fails (atom size expression))
      (⟨.symbol .openParen, opening⟩ :: rest) error := by
  rw [atom] at failure
  rcases bind_eq_error.mp failure with inner | ⟨⟨phrase, after⟩, read, last⟩
  next =>
    refine (points.blames inner).behind [⟨.symbol .openParen, opening⟩] ?_ ?_
    next =>
      rintro part - ⟨derivation, shallow, begins⟩
      refine ⟨.parenthesized opening derivation ⟨0, 0⟩, Nat.succ_lt_succ shallow, ?_⟩
      exact (List.prefix_cons_inj _).mpr (begins.trans (List.prefix_append _ _))
    next =>
      rintro other - ⟨problem, fails⟩
      exact ⟨problem, by rw [List.singleton_append, atom, fails, error_bind]⟩
  next =>
    obtain ⟨derivation, rfl, rfl, shallow⟩ := reads.sound read
    dsimp only at last
    split at last
    next => cases last
    next unclosed =>
      cases last
      refine .stuck (⟨.symbol .openParen, opening⟩ :: derivation.tokens) .closeParen ?_ ?_
      next =>
        refine ⟨.parenthesized opening derivation ⟨0, 0⟩, Nat.succ_lt_succ shallow, ?_⟩
        exact (List.prefix_cons_inj _).mpr (List.prefix_append _ _)
      next =>
        rintro token behind rfl other
        have again := reads.complete derivation (token :: other) shallow
          (.cons (points.stops read).head)
        rw [List.cons_append, Fails, atom, again, ok_bind]
        dsimp only
        split
        next closing final same =>
          cases same
          exact absurd rfl (unclosed closing behind)
        next => exact ⟨_, rfl⟩

theorem points_atom (reads : Reads expression .expression levels)
    (points : Points size expression .expression levels) :
    Points size (atom size expression) .atom (levels + 1) where
  stops _ := Form.atom_stops _
  blames {tokens error} failure := by
    cases tokens with
    | nil =>
      cases failure
      exact .stuck [] .expression viable_nil_atom (by simp)
    | cons token rest =>
      cases fits : token.kind.leaf? with
      | some kind =>
        rw [atom_leaf size fits] at failure
        cases failure
      | none =>
        by_cases opens : token.kind = .symbol .openParen
        next =>
          obtain ⟨kind, opening⟩ := token
          subst opens
          exact blames_parenthesized reads points failure
        next =>
          rw [atom_of_other fits opens] at failure
          cases failure
          refine .stuck [] .expression viable_nil_atom ?_
          intro first behind same other
          cases same
          exact ⟨_, atom_of_other fits opens other⟩

def InsideViable (levels : Nat) (part : List Token) : Prop :=
  ∃ behind phrases, Inside levels (part ++ behind) phrases []

theorem insideViable_of_argument {derivation : Derivation (.form .expression)}
    (shallow : derivation.nesting < levels) {part : List Token}
    (begins : part <+: derivation.tokens) : InsideViable levels part := by
  obtain ⟨rest, same⟩ := begins
  have inside := Inside.some derivation .noMore none ⟨0, 0⟩ [] shallow (Nat.succ_pos levels)
  rw [← same, List.append_assoc] at inside
  exact ⟨_, _, inside⟩

theorem stops_of_head {form : Form} {tokens rest : List Token} (stops : form.Stops tokens)
    (same : rest.head? = tokens.head?) : form.Stops rest := by
  rwa [Form.Stops, same]

theorem ne_cons_of_head {token : Token} {tokens rest : List Token}
    (other : ∀ behind, tokens ≠ token :: behind) (same : rest.head? = tokens.head?)
    (behind : List Token) : rest ≠ token :: behind := by
  rintro rfl
  obtain ⟨after, rfl⟩ := List.head?_eq_some_iff.mp same.symm
  exact other after rfl

section Argument

variable (reads : Reads expression .expression levels) {argument : Derivation (.form .expression)}
  (shallow : argument.nesting < levels)

include reads shallow

theorem argumentsUpTo_behind_comma {comma : Span} {rest : List Token} {bound : Nat}
    {error : CompileError} (fails : argumentsUpTo size expression bound rest = .error error) :
    argumentsUpTo size expression (bound + 1)
      (argument.tokens ++ ⟨.symbol .comma, comma⟩ :: rest) = .error error := by
  have read := reads.complete argument (⟨.symbol .comma, comma⟩ :: rest) shallow (.cons rfl)
  rw [argumentsUpTo.eq_3 _ _ _ _ fun _ _ => argument.not_starts_closeParen, read, ok_bind]
  dsimp only
  rw [fails, error_bind]

theorem argumentsUpTo_unseparated {token : Token}
    (stops : Form.expression.continues token.kind = false) (more : token.kind ≠ .symbol .comma)
    (last : token.kind ≠ .symbol .closeParen) (rest : List Token) (bound : Nat) :
    argumentsUpTo size expression (bound + 1) (argument.tokens ++ token :: rest) =
      .error (unexpected size .commaOrCloseParen (token :: rest)) := by
  have read := reads.complete argument (token :: rest) shallow (.cons stops)
  rw [argumentsUpTo.eq_3 _ _ _ _ fun _ _ => argument.not_starts_closeParen, read, ok_bind]
  dsimp only
  split
  next same =>
    cases same
    exact absurd rfl more
  next same =>
    cases same
    exact absurd rfl last
  next => rfl

end Argument

theorem blames_argumentsUpTo (reads : Reads expression .expression levels)
    (points : Points size expression .expression levels) {bound : Nat} {tokens : List Token}
    {error : CompileError} (enough : tokens.length < bound)
    (failure : argumentsUpTo size expression bound tokens = .error error) :
    Blames size (InsideViable levels)
      (fun tokens => ∀ bound, tokens.length < bound →
        Fails (argumentsUpTo size expression bound) tokens) tokens error := by
  fun_induction argumentsUpTo size expression bound tokens with
  | case1 => cases failure
  | case2 => exact absurd enough (Nat.not_lt_zero _)
  | case3 bound tokens unclosed ih =>
    rcases bind_eq_error.mp failure with first | ⟨⟨phrase, after⟩, read, last⟩
    next =>
      refine (points.blames first).behind [] ?_ ?_
      next =>
        rintro part - ⟨argument, shallow, begins⟩
        exact insideViable_of_argument shallow begins
      next =>
        rintro rest head ⟨problem, fails⟩ bound enough
        obtain ⟨bound, rfl⟩ := Nat.exists_eq_add_one_of_ne_zero (Nat.ne_zero_of_lt enough)
        refine ⟨problem, ?_⟩
        rw [List.nil_append, argumentsUpTo.eq_3 _ _ _ _ fun closing =>
          ne_cons_of_head (unclosed closing) head, fails, error_bind]
    next =>
      obtain ⟨argument, rfl, rfl, shallow⟩ := reads.sound read
      dsimp only at last
      split at last
      next comma behind =>
        rcases bind_eq_error.mp last with more | ⟨found, -, impossible⟩
        next =>
          simp only [List.length_append, List.length_cons] at enough
          rw [List.append_cons]
          refine (ih behind (by omega) more).behind (argument.tokens ++ [⟨.symbol .comma, comma⟩])
            ?_ ?_
          next =>
            rintro part - ⟨after, phrases, inside⟩
            have longer := inside.behind_comma argument comma shallow
            exact ⟨after, argument.tree :: .leaf .comma comma :: phrases, by simpa using longer⟩
          next =>
            rintro rest - fails bound enough
            simp only [List.length_append, List.length_cons] at enough
            obtain ⟨bound, rfl⟩ := Nat.exists_eq_add_one_of_ne_zero (Nat.ne_zero_of_lt enough)
            obtain ⟨problem, fails⟩ := fails bound (by omega)
            refine ⟨problem, ?_⟩
            rw [← List.append_cons]
            exact argumentsUpTo_behind_comma reads shallow fails
        next => cases impossible
      next => cases last
      next more closed =>
        cases last
        refine .stuck argument.tokens .commaOrCloseParen
          (insideViable_of_argument shallow (List.prefix_refl _)) ?_
        rintro ⟨kind, span⟩ behind rfl other bound enough
        obtain ⟨bound, rfl⟩ := Nat.exists_eq_add_one_of_ne_zero (Nat.ne_zero_of_lt enough)
        refine ⟨_, argumentsUpTo_unseparated reads shallow (points.stops read).head ?_ ?_ other
          bound⟩
        next =>
          rintro rfl
          exact more span behind rfl
        next =>
          rintro rfl
          exact closed span behind rfl

theorem blames_arguments (reads : Reads expression .expression levels)
    (points : Points size expression .expression levels) {opening : Span} {tokens : List Token}
    {error : CompileError} (failure : arguments size expression opening tokens = .error error) :
    Blames size
      (fun part => (Category.form .arguments).Viable (levels + 1)
        (⟨.symbol .openParen, opening⟩ :: part))
      (Fails (arguments size expression opening)) tokens error := by
  rcases bind_eq_error.mp failure with inside | ⟨found, -, impossible⟩
  next =>
    refine (blames_argumentsUpTo reads points (Nat.lt_succ_self _) inside).behind [] ?_ ?_
    next =>
      rintro part - ⟨behind, phrases, inside⟩
      generalize whole : part ++ behind = tokens at inside
      have begins : part <+: tokens := ⟨behind, whole⟩
      cases inside with
      | none closing =>
        exact ⟨.noArguments opening closing, Nat.succ_pos levels,
          (List.prefix_cons_inj _).mpr begins⟩
      | some first more trailing closing _ shallow shallowMore =>
        exact ⟨.arguments opening first more trailing closing,
          Nat.max_lt.mpr ⟨Nat.succ_lt_succ shallow, shallowMore⟩,
          (List.prefix_cons_inj _).mpr begins⟩
    next =>
      rintro rest - fails
      obtain ⟨problem, fails⟩ := fails (rest.length + 1) (Nat.lt_succ_self _)
      exact ⟨problem, by rw [List.nil_append, arguments, fails, error_bind]⟩
  next => cases impossible

def FailsUpTo (reader : Nat → Phrase → Reader) (tokens : List Token) : Prop :=
  ∀ bound left, tokens.length ≤ bound → Fails (reader bound left) tokens

theorem length_le_of_form {form : Form} (derivation : Derivation (.form form)) {bound : Nat}
    {tokens rest : List Token} (same : derivation.tokens ++ rest = tokens)
    (enough : tokens.length ≤ bound + 1) : rest.length ≤ bound := by
  obtain ⟨token, inside, head, -⟩ := derivation.exists_head
  rw [← same, head, List.cons_append, List.length_cons, List.length_append] at enough
  omega

theorem stops_of_callsUpTo (reads : Reads expression .expression levels) {bound : Nat}
    {callee phrase : Phrase} {tokens rest : List Token} (enough : tokens.length ≤ bound)
    (success : callsUpTo size expression bound callee tokens = .ok (phrase, rest)) :
    Form.call.Stops rest := by
  fun_induction callsUpTo size expression bound callee tokens with
  | case1 bound callee opening behind ih =>
    obtain ⟨⟨list, after⟩, readList, next⟩ := bind_eq_ok.mp success
    obtain ⟨first, same, -, -⟩ := arguments_sound size reads readList
    exact ih list after (length_le_of_form first same enough) next
  | case2 bound callee tokens other =>
    cases success
    rintro ⟨kind, span⟩ head
    obtain ⟨behind, rfl⟩ := List.head?_eq_some_iff.mp head
    obtain ⟨bound, rfl⟩ := Nat.exists_eq_add_one_of_ne_zero (Nat.ne_zero_of_lt enough)
    have uncalled : kind ≠ .symbol .openParen := by
      rintro rfl
      exact other bound span behind rfl rfl
    simpa [Form.continues] using uncalled

theorem blames_callsUpTo (reads : Reads expression .expression levels)
    (points : Points size expression .expression levels) {bound : Nat} {callee : Phrase}
    {tokens : List Token} {error : CompileError} (enough : tokens.length ≤ bound)
    (failure : callsUpTo size expression bound callee tokens = .error error) :
    Blames size (Category.applications.Viable (levels + 1))
      (FailsUpTo (callsUpTo size expression)) tokens error := by
  fun_induction callsUpTo size expression bound callee tokens with
  | case1 bound callee opening behind ih =>
    rcases bind_eq_error.mp failure with list | ⟨⟨phrase, after⟩, readList, later⟩
    next =>
      refine (blames_arguments reads points list).behind [⟨.symbol .openParen, opening⟩] ?_ ?_
      next =>
        rintro part - ⟨list, shallow, begins⟩
        exact ⟨.application list .noApplication, Nat.max_lt.mpr ⟨shallow, Nat.succ_pos levels⟩,
          begins.trans (List.prefix_append _ _)⟩
      next =>
        rintro rest - ⟨problem, fails⟩ bound left enough
        obtain ⟨bound, rfl⟩ := Nat.exists_eq_add_one_of_ne_zero (Nat.ne_zero_of_lt enough)
        exact ⟨problem, by rw [List.singleton_append, callsUpTo, fails, error_bind]⟩
    next =>
      obtain ⟨list, same, rfl, shallow⟩ := arguments_sound size reads readList
      have fewer := length_le_of_form list same enough
      rw [← same]
      refine (ih _ after fewer later).behind list.tokens ?_ ?_
      next =>
        rintro part - ⟨applications, shallowMore, begins⟩
        exact ⟨.application list applications, Nat.max_lt.mpr ⟨shallow, shallowMore⟩,
          (List.prefix_append_right_inj _).mpr begins⟩
      next =>
        rintro rest - fails bound left enough
        obtain ⟨opening, behind, same, again⟩ := arguments_complete size reads list shallow rest
        rw [same] at enough ⊢
        obtain ⟨bound, rfl⟩ := Nat.exists_eq_add_one_of_ne_zero (Nat.ne_zero_of_lt enough)
        obtain ⟨problem, fails⟩ := fails bound (.wrap .callExpression left [list.tree])
          (length_le_of_form list same enough)
        refine ⟨problem, ?_⟩
        rw [callsUpTo, again, ok_bind]
        exact fails
  | case2 => cases failure

theorem points_call (reads : Reads expression .expression levels)
    (points : Points size expression .expression levels) :
    Points size (call size expression) .call (levels + 1) where
  stops success := by
    obtain ⟨⟨callee, after⟩, -, next⟩ := bind_eq_ok.mp success
    exact stops_of_callsUpTo reads (Nat.le_refl _) next
  blames failure := by
    rcases bind_eq_error.mp failure with first | ⟨⟨phrase, after⟩, readCallee, later⟩
    next =>
      refine ((points_atom reads points).blames first).bind ?_ _
      rintro part ⟨callee, shallow, begins⟩
      exact ⟨.call callee .noApplication, Nat.max_lt.mpr ⟨shallow, Nat.succ_pos levels⟩,
        begins.trans (List.prefix_append _ _)⟩
    next =>
      obtain ⟨callee, rfl, rfl, shallow⟩ := (reads_atom size reads).sound readCallee
      refine (blames_callsUpTo reads points (Nat.le_refl _) later).behind callee.tokens ?_ ?_
      next =>
        rintro part - ⟨applications, shallowMore, begins⟩
        exact ⟨.call callee applications, Nat.max_lt.mpr ⟨shallow, shallowMore⟩,
          (List.prefix_append_right_inj _).mpr begins⟩
      next =>
        rintro rest - fails
        have again := (reads_atom size reads).complete callee rest shallow (Form.atom_stops _)
        obtain ⟨problem, fails⟩ := fails rest.length callee.tree (Nat.le_refl _)
        refine ⟨problem, ?_⟩
        rw [call, again, ok_bind]
        exact fails

theorem points_power (reads : Reads expression .expression levels)
    (points : Points size expression .expression levels)
    (pointsFactor : Points size factor .factor levels) :
    Points size (power size expression factor) .power (levels + 1) where
  stops success := by
    obtain ⟨⟨base, after⟩, readBase, next⟩ := bind_eq_ok.mp success
    dsimp only at next
    split at next
    next sign behind =>
      obtain ⟨⟨raised, final⟩, readExponent, last⟩ := bind_eq_ok.mp next
      cases last
      exact pointsFactor.stops readExponent
    next unraised =>
      cases next
      have uncalled := (points_call reads points).stops readBase
      rintro ⟨kind, span⟩ head
      obtain ⟨behind, rfl⟩ := List.head?_eq_some_iff.mp head
      have unpowered : kind ≠ .symbol .power := by
        rintro rfl
        exact unraised span behind rfl
      have opened : kind ≠ .symbol .openParen := by simpa [Form.continues] using uncalled.head
      simp [Form.continues, Token.Kind.continuesPower, unpowered, opened]
  blames failure := by
    rcases bind_eq_error.mp failure with first | ⟨⟨phrase, after⟩, readBase, later⟩
    next =>
      refine ((points_call reads points).blames first).bind ?_ _
      rintro part ⟨root, shallow, begins⟩
      exact ⟨.base root, shallow, begins⟩
    next =>
      obtain ⟨root, rfl, rfl, shallow⟩ := (reads_call size reads).sound readBase
      dsimp only at later
      split at later
      next sign behind =>
        rcases bind_eq_error.mp later with exponent | ⟨found, -, impossible⟩
        next =>
          rw [List.append_cons]
          refine (pointsFactor.blames exponent).behind (root.tokens ++ [⟨.symbol .power, sign⟩])
            ?_ ?_
          next =>
            rintro part - ⟨exponent, shallowExponent, begins⟩
            refine ⟨.raised root sign exponent,
              Nat.max_lt.mpr ⟨shallow, Nat.succ_lt_succ shallowExponent⟩, ?_⟩
            rw [Derivation.tokens, List.append_assoc, List.singleton_append]
            exact (List.prefix_append_right_inj _).mpr ((List.prefix_cons_inj _).mpr begins)
          next =>
            rintro rest - ⟨problem, fails⟩
            have again := (reads_call size reads).complete root (⟨.symbol .power, sign⟩ :: rest)
              shallow (.cons rfl)
            refine ⟨problem, ?_⟩
            rw [← List.append_cons, power, again, ok_bind]
            dsimp only
            rw [fails, error_bind]
        next => cases impossible
      next => cases later

theorem factorOf_of_unsigned {tokens : List Token}
    (unsigned : ∀ token ∈ tokens.head?, ¬ token.kind.isUnary = true) :
    factorOf size expression factor tokens = power size expression factor tokens := by
  cases tokens with
  | nil => rfl
  | cons token rest => rw [factorOf, if_neg (unsigned token rfl)]

theorem points_factorOf (reads : Reads expression .expression levels)
    (points : Points size expression .expression levels)
    (pointsFactor : Points size factor .factor levels) :
    Points size (factorOf size expression factor) .factor (levels + 1) where
  stops {tokens rest phrase} success := by
    by_cases unsigned : ∀ token ∈ tokens.head?, ¬ token.kind.isUnary = true
    next =>
      rw [factorOf_of_unsigned unsigned] at success
      exact (points_power reads points pointsFactor).stops success
    next =>
      obtain ⟨token, head, sign⟩ : ∃ token ∈ tokens.head?, token.kind.isUnary = true := by
        simpa using unsigned
      obtain ⟨behind, rfl⟩ := List.head?_eq_some_iff.mp head
      rw [factorOf, if_pos sign] at success
      obtain ⟨⟨operand, final⟩, readOperand, last⟩ := bind_eq_ok.mp success
      cases last
      exact pointsFactor.stops readOperand
  blames {tokens error} failure := by
    by_cases unsigned : ∀ token ∈ tokens.head?, ¬ token.kind.isUnary = true
    next =>
      rw [factorOf_of_unsigned unsigned] at failure
      refine ((points_power reads points pointsFactor).blames failure).behind [] ?_ ?_
      next =>
        rintro part - ⟨power, shallow, begins⟩
        exact ⟨.unsigned power, shallow, begins⟩
      next =>
        rintro rest head ⟨problem, fails⟩
        exact ⟨problem, by rw [List.nil_append, factorOf_of_unsigned (head ▸ unsigned), fails]⟩
    next =>
      obtain ⟨token, head, sign⟩ : ∃ token ∈ tokens.head?, token.kind.isUnary = true := by
        simpa using unsigned
      obtain ⟨behind, rfl⟩ := List.head?_eq_some_iff.mp head
      rw [factorOf, if_pos sign] at failure
      rcases bind_eq_error.mp failure with operand | ⟨found, -, impossible⟩
      next =>
        refine (pointsFactor.blames operand).behind [token] ?_ ?_
        next =>
          rintro part - ⟨operand, shallow, begins⟩
          exact ⟨.unary token sign operand, Nat.succ_lt_succ shallow,
            (List.prefix_cons_inj _).mpr begins⟩
        next =>
          rintro rest - ⟨problem, fails⟩
          exact ⟨problem, by rw [List.singleton_append, factorOf, if_pos sign, fails, error_bind]⟩
      next => cases impossible

theorem stops_of_chainUpTo {tier : Tier} (reads : Reads operand tier.operand levels)
    (points : Points size operand tier.operand levels) {bound : Nat} {left phrase : Phrase}
    {tokens rest : List Token} (enough : tokens.length ≤ bound) (stops : tier.operand.Stops tokens)
    (success : chainUpTo tier.isOperator tier.operatorKind operand bound left tokens =
      .ok (phrase, rest)) : (Form.chain tier).Stops rest := by
  fun_induction chainUpTo tier.isOperator tier.operatorKind operand bound left tokens with
  | case1 bound left token behind fits ih =>
    obtain ⟨⟨right, after⟩, readRight, next⟩ := bind_eq_ok.mp success
    obtain ⟨first, same, -, -⟩ := reads.sound readRight
    refine ih right after ?_ (points.stops readRight) next
    exact length_le_of_form first same (Nat.le_of_succ_le enough)
  | case2 bound left token behind other =>
    cases success
    refine .cons ?_
    rw [Tier.continues_chain, stops.head, Bool.false_or]
    exact Bool.eq_false_iff.mpr other
  | case3 bound left tokens none =>
    cases success
    intro token head
    obtain ⟨behind, rfl⟩ := List.head?_eq_some_iff.mp head
    obtain ⟨bound, rfl⟩ := Nat.exists_eq_add_one_of_ne_zero (Nat.ne_zero_of_lt enough)
    exact absurd rfl (none bound token behind rfl)

theorem blames_chainUpTo {tier : Tier} (reads : Reads operand tier.operand levels)
    (points : Points size operand tier.operand levels) {bound : Nat} {left : Phrase}
    {tokens : List Token} {error : CompileError} (enough : tokens.length ≤ bound)
    (failure : chainUpTo tier.isOperator tier.operatorKind operand bound left tokens =
      .error error) :
    Blames size ((Category.links tier).Viable levels)
      (FailsUpTo (chainUpTo tier.isOperator tier.operatorKind operand)) tokens error := by
  fun_induction chainUpTo tier.isOperator tier.operatorKind operand bound left tokens with
  | case1 bound left token behind fits ih =>
    rcases bind_eq_error.mp failure with right | ⟨⟨phrase, after⟩, readRight, later⟩
    next =>
      refine (points.blames right).behind [token] ?_ ?_
      next =>
        rintro part - ⟨right, shallow, begins⟩
        exact ⟨.link token fits right .noLink, Nat.max_lt.mpr ⟨shallow, Nat.zero_lt_of_lt shallow⟩,
          (List.prefix_cons_inj _).mpr (begins.trans (List.prefix_append _ _))⟩
      next =>
        rintro rest - ⟨problem, fails⟩ bound left enough
        obtain ⟨bound, rfl⟩ := Nat.exists_eq_add_one_of_ne_zero (Nat.ne_zero_of_lt enough)
        exact ⟨problem, by rw [List.singleton_append, chainUpTo, if_pos fits, fails, error_bind]⟩
    next =>
      obtain ⟨right, rfl, rfl, shallow⟩ := reads.sound readRight
      have fewer := length_le_of_form right rfl (Nat.le_of_succ_le enough)
      refine (ih _ after fewer later).behind (token :: right.tokens) ?_ ?_
      next =>
        rintro part - ⟨links, shallowMore, begins⟩
        exact ⟨.link token fits right links, Nat.max_lt.mpr ⟨shallow, shallowMore⟩,
          (List.prefix_cons_inj _).mpr ((List.prefix_append_right_inj _).mpr begins)⟩
      next =>
        rintro rest head fails bound left enough
        have again := reads.complete right rest shallow
          (stops_of_head (points.stops readRight) head)
        obtain ⟨bound, rfl⟩ := Nat.exists_eq_add_one_of_ne_zero (Nat.ne_zero_of_lt enough)
        obtain ⟨problem, fails⟩ := fails bound
          (.wrap .binaryExpression left [.leaf tier.operatorKind token.span, right.tree])
          (length_le_of_form right rfl (Nat.le_of_succ_le enough))
        refine ⟨problem, ?_⟩
        rw [List.cons_append, chainUpTo, if_pos fits, again, ok_bind]
        exact fails
  | case2 => cases failure
  | case3 => cases failure

theorem points_chain (tier : Tier) (reads : Reads operand tier.operand levels)
    (points : Points size operand tier.operand levels) :
    Points size (chain tier.isOperator tier.operatorKind operand) (.chain tier) levels where
  stops success := by
    obtain ⟨⟨left, after⟩, readLeft, next⟩ := bind_eq_ok.mp success
    exact stops_of_chainUpTo reads points (Nat.le_refl _) (points.stops readLeft) next
  blames failure := by
    rcases bind_eq_error.mp failure with first | ⟨⟨phrase, after⟩, readLeft, later⟩
    next =>
      refine (points.blames first).bind ?_ _
      rintro part ⟨left, shallow, begins⟩
      exact ⟨.chain left .noLink, Nat.max_lt.mpr ⟨shallow, Nat.zero_lt_of_lt shallow⟩,
        begins.trans (List.prefix_append _ _)⟩
    next =>
      obtain ⟨left, rfl, rfl, shallow⟩ := reads.sound readLeft
      refine (blames_chainUpTo reads points (Nat.le_refl _) later).behind left.tokens ?_ ?_
      next =>
        rintro part - ⟨links, shallowMore, begins⟩
        exact ⟨.chain left links, Nat.max_lt.mpr ⟨shallow, shallowMore⟩,
          (List.prefix_append_right_inj _).mpr begins⟩
      next =>
        rintro rest head fails
        have again := reads.complete left rest shallow (stops_of_head (points.stops readLeft) head)
        obtain ⟨problem, fails⟩ := fails rest.length left.tree (Nat.le_refl _)
        refine ⟨problem, ?_⟩
        rw [chain, again, ok_bind]
        exact fails

theorem points_comparison (reads : Reads factor .factor levels)
    (points : Points size factor .factor levels) :
    Points size (comparison factor) (.chain .comparison) levels :=
  have products := reads_chain .product reads
  have pointsProduct := points_chain .product reads points
  points_chain .comparison (reads_chain .sum products) (points_chain .sum products pointsProduct)

theorem points_expressionOf (readsFactor : Reads factor .factor (levels + 1))
    (points : Points size expression .expression levels)
    (pointsFactor : Points size factor .factor (levels + 1)) :
    Points size (expressionOf expression factor) .expression (levels + 1) where
  stops {tokens rest phrase} success := by
    unfold expressionOf at success
    split at success
    next word behind =>
      obtain ⟨⟨operand, final⟩, readOperand, last⟩ := bind_eq_ok.mp success
      cases last
      exact points.stops readOperand
    next => exact (points_comparison readsFactor pointsFactor).stops success
  blames {tokens error} failure := by
    unfold expressionOf at failure
    split at failure
    next word behind =>
      rcases bind_eq_error.mp failure with operand | ⟨found, -, impossible⟩
      next =>
        refine (points.blames operand).behind [⟨.keyword .not, word⟩] ?_ ?_
        next =>
          rintro part - ⟨operand, shallow, begins⟩
          exact ⟨.not word operand, Nat.succ_lt_succ shallow, (List.prefix_cons_inj _).mpr begins⟩
        next =>
          rintro rest - ⟨problem, fails⟩
          exact ⟨problem, by rw [List.singleton_append, expressionOf, fails, error_bind]⟩
      next => cases impossible
    next tokens plain =>
      refine ((points_comparison readsFactor pointsFactor).blames failure).behind [] ?_ ?_
      next =>
        rintro part - ⟨operands, shallow, begins⟩
        exact ⟨.compared operands, shallow, begins⟩
      next =>
        rintro rest head ⟨problem, fails⟩
        refine ⟨problem, ?_⟩
        rw [List.nil_append, expressionOf.eq_2 _ _ _ fun word => ne_cons_of_head (plain word) head,
          fails]

theorem points_level (size levels : Nat) :
    Points size (level size levels).expression .expression levels ∧
      Points size (level size levels).factor .factor levels := by
  induction levels with
  | zero => exact ⟨points_tooDeep _, points_tooDeep _⟩
  | succ levels ih =>
    have reads := reads_level size levels
    have factors := points_factorOf reads.1 ih.1 ih.2
    exact ⟨points_expressionOf (reads_factorOf size reads.1 reads.2) ih.1 factors, factors⟩

end Reader

end StackScript
