import HeaderBridge.SwiftType.Basic

/-! # Names that Swift knows under another name

Scalar typedefs, bridged Foundation classes, framework enumerations that became
member types, and protocols that share their name with a class.
-/

namespace HeaderBridge.Lowering

def scalars : List (String × SwiftType) :=
  [("BOOL", .named "Bool"), ("bool", .named "Bool"), ("_Bool", .named "Bool"),
    ("Boolean", .named "Bool"), ("NSInteger", .named "Int"), ("NSUInteger", .named "UInt"),
    ("CGFloat", .named "CGFloat"), ("NSTimeInterval", .named "TimeInterval"),
    ("char", .named "CChar"), ("signed char", .named "CSignedChar"),
    ("unsigned char", .named "CUnsignedChar"), ("unichar", .named "unichar"),
    ("short", .named "CShort"), ("short int", .named "CShort"),
    ("unsigned short", .named "CUnsignedShort"), ("int", .named "CInt"),
    ("signed", .named "CInt"), ("signed int", .named "CInt"),
    ("unsigned", .named "CUnsignedInt"), ("unsigned int", .named "CUnsignedInt"),
    ("long", .named "CLong"), ("long int", .named "CLong"),
    ("unsigned long", .named "CUnsignedLong"), ("unsigned long int", .named "CUnsignedLong"),
    ("long long", .named "CLongLong"), ("unsigned long long", .named "CUnsignedLongLong"),
    ("float", .named "Float"), ("double", .named "Double"),
    ("long double", .named "CLongDouble"), ("int8_t", .named "Int8"),
    ("int16_t", .named "Int16"), ("int32_t", .named "Int32"), ("int64_t", .named "Int64"),
    ("uint8_t", .named "UInt8"), ("uint16_t", .named "UInt16"), ("uint32_t", .named "UInt32"),
    ("uint64_t", .named "UInt64"), ("size_t", .named "Int"), ("NSRange", .named "NSRange"),
    ("CGRect", .named "CGRect"), ("CGPoint", .named "CGPoint"), ("CGSize", .named "CGSize"),
    ("CGVector", .named "CGVector"), ("CGAffineTransform", .named "CGAffineTransform"),
    ("UIEdgeInsets", .named "UIEdgeInsets"), ("NSComparisonResult", .named "ComparisonResult"),
    ("NSStringEncoding", .nested (.plain "String") (.plain "Encoding") [])]

/-- Foundation classes that are imported as value types. -/
def bridgedClasses : List (String × String) :=
  [("NSString", "String"), ("NSMutableString", "NSMutableString"), ("NSNumber", "NSNumber"),
    ("NSDate", "Date"), ("NSData", "Data"), ("NSURL", "URL"), ("NSURLRequest", "URLRequest"),
    ("NSUUID", "UUID"), ("NSError", "Error"), ("NSIndexPath", "IndexPath"),
    ("NSIndexSet", "IndexSet"), ("NSLocale", "Locale"), ("NSTimeZone", "TimeZone"),
    ("NSCalendar", "Calendar"), ("NSDateComponents", "DateComponents"),
    ("NSCharacterSet", "CharacterSet"), ("NSNotification", "Notification"),
    ("NSDecimalNumber", "NSDecimalNumber")]

/-- Framework enumerations and option sets, with the type and the member that
they became. -/
def memberTypes : List (String × String × String) :=
  [("UIViewAnimationOptions", "UIView", "AnimationOptions"),
    ("UIViewContentMode", "UIView", "ContentMode"),
    ("UIViewAutoresizing", "UIView", "AutoresizingMask"),
    ("UIControlState", "UIControl", "State"),
    ("UIControlEvents", "UIControl", "Event"),
    ("UIButtonType", "UIButton", "ButtonType"),
    ("UITableViewStyle", "UITableView", "Style"),
    ("UITableViewCellStyle", "UITableViewCell", "CellStyle"),
    ("UITableViewRowAnimation", "UITableView", "RowAnimation"),
    ("UIAlertActionStyle", "UIAlertAction", "Style"),
    ("UIAlertControllerStyle", "UIAlertController", "Style"),
    ("NSLayoutAttribute", "NSLayoutConstraint", "Attribute"),
    ("NSLayoutRelation", "NSLayoutConstraint", "Relation"),
    ("NSURLRequestCachePolicy", "URLRequest", "CachePolicy")]

/-- Collections that keep their class and lose their arguments. -/
def bareCollections : List String :=
  ["NSMutableDictionary", "NSMutableSet", "NSOrderedSet", "NSMutableOrderedSet"]

def protocolName (name : String) : String :=
  if name = "NSObject" then "NSObjectProtocol" else name

def className (name : String) : String :=
  (bridgedClasses.lookup name).getD name

/-- Whether a name is that of a scalar, behind which no object can stand. -/
def isScalar (name : String) : Bool :=
  (scalars.lookup name).isSome || name = "SEL" || name = "instancetype"

def isValueTypedef (name : String) : Bool :=
  (memberTypes.lookup name).isSome
    || ("CF".toList.isPrefixOf name.toList && "Ref".toList.isSuffixOf name.toList)

end HeaderBridge.Lowering
