/-!
# The exceptions of the terminal classes

Only the kinds the code can raise on its own.  An index exception names the
array, since the emulators' robustness is a statement about particular arrays.
-/

namespace Kbox

inductive ArrayName where
  | mArgs | mTabStop | mCharSet | mOSCArg
  | mData | mRowBuffer | mLineWrap
  | mLines | mColor | mText | mOffset | basicLine | tmpLine
  | mSpecialGraphicsCharMap | growable | chars | mBuffer
deriving DecidableEq, Repr

inductive Exn where
  | illegalArgument
  | arrayIndexOutOfBounds (array : ArrayName)
  | negativeArraySize
  | nullPointer
  | bufferOverflow
  | stringIndexOutOfBounds
deriving DecidableEq, Repr

end Kbox
