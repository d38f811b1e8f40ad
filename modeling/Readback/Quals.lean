/-! # Type qualifiers

`Quals` are the qualifiers of a C type at one level. The operation graph writes narrower sets: `Cv`
on types that are neither integers nor derived, and `Ucv`, which adds signedness, on integers. -/

namespace Readback

/-- The qualifiers at one level of a C type. -/
structure Quals where
  isConst : Bool
  isVolatile : Bool
  isRestrict : Bool
deriving DecidableEq, Inhabited

namespace Quals

/-- No qualifiers. -/
def none : Quals := ⟨false, false, false⟩

/-- Just `const`. -/
def const : Quals := ⟨true, false, false⟩

/-- Whether there are none. -/
def isEmpty (q : Quals) : Bool := !(q.isConst || q.isVolatile || q.isRestrict)

/-- The qualifiers of either. -/
def union (q r : Quals) : Quals :=
  ⟨q.isConst || r.isConst, q.isVolatile || r.isVolatile, q.isRestrict || r.isRestrict⟩

/-- The keywords, in their fixed order. -/
def words (q : Quals) : List String :=
  (if q.isConst then ["const"] else []) ++ (if q.isVolatile then ["volatile"] else [])
    ++ (if q.isRestrict then ["restrict"] else [])

/-- The keywords with a blank between each two. -/
def spelling (q : Quals) : String := " ".intercalate q.words

end Quals

/-- Constness and volatility. -/
structure Cv where
  isConst : Bool
  isVolatile : Bool
deriving DecidableEq, Inhabited

namespace Cv

/-- The same qualifiers on a C type. -/
def quals (q : Cv) : Quals := ⟨q.isConst, q.isVolatile, false⟩

/-- The keywords, in their fixed order. -/
def words (q : Cv) : List String := q.quals.words

end Cv

/-- Signedness, constness and volatility. -/
structure Ucv where
  isUnsigned : Bool
  isConst : Bool
  isVolatile : Bool
deriving DecidableEq, Inhabited

namespace Ucv

/-- The qualifiers among them. -/
def quals (q : Ucv) : Quals := ⟨q.isConst, q.isVolatile, false⟩

/-- The keywords, in their fixed order. -/
def words (q : Ucv) : List String :=
  (if q.isUnsigned then ["unsigned"] else []) ++ q.quals.words

end Ucv

end Readback
