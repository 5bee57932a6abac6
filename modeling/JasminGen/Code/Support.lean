/-
  JasminGen.Code.Support

  The support classes that generated code runs with. They are the same for every
  program, and are copied next to the generated units as they stand here.

  Main definition: `supportClasses`.
-/

import JasminGen.Ty

namespace JasminGen

/-- A hand-written class with its assembly text. -/
structure SupportClass where
  name : String
  source : String

/-- The file that holds a support class. -/
def SupportClass.fileName (c : SupportClass) : String :=
  c.name ++ ".j"

/-- Lists, over a growing array. Copying a list copies the lists inside of it too. -/
def listSupport : SupportClass where
  name := listClass
  source := String.join [
    ".class public List\n",
    ".super java/lang/Object\n",
    "\n",
    ".field private elements Ljava/util/ArrayList;\n",
    "\n",
    ".method public <init>()V\n",
    ".limit stack 3\n",
    ".limit locals 1\n",
    "    aload_0\n",
    "    invokespecial java/lang/Object/<init>()V\n",
    "    aload_0\n",
    "    new java/util/ArrayList\n",
    "    dup\n",
    "    invokespecial java/util/ArrayList/<init>()V\n",
    "    putfield List/elements Ljava/util/ArrayList;\n",
    "    return\n",
    ".end method\n",
    "\n",
    ".method public <init>(Ljava/util/ArrayList;)V\n",
    ".limit stack 2\n",
    ".limit locals 2\n",
    "    aload_0\n",
    "    invokespecial java/lang/Object/<init>()V\n",
    "    aload_0\n",
    "    aload_1\n",
    "    putfield List/elements Ljava/util/ArrayList;\n",
    "    return\n",
    ".end method\n",
    "\n",
    "; copy constructor, nested lists are copied as well\n",
    ".method public <init>(LList;)V\n",
    ".limit stack 4\n",
    ".limit locals 4\n",
    "    aload_0\n",
    "    invokespecial java/lang/Object/<init>()V\n",
    "    aload_0\n",
    "    new java/util/ArrayList\n",
    "    dup\n",
    "    invokespecial java/util/ArrayList/<init>()V\n",
    "    putfield List/elements Ljava/util/ArrayList;\n",
    "    iconst_0\n",
    "    istore_2\n",
    "CopyLoop:\n",
    "    iload_2\n",
    "    aload_1\n",
    "    invokevirtual List/getSize()I\n",
    "    if_icmpge CopyDone\n",
    "    aload_1\n",
    "    iload_2\n",
    "    invokevirtual List/getElement(I)Ljava/lang/Object;\n",
    "    astore_3\n",
    "    aload_3\n",
    "    instanceof List\n",
    "    ifeq CopyElement\n",
    "    new List\n",
    "    dup\n",
    "    aload_3\n",
    "    checkcast List\n",
    "    invokespecial List/<init>(LList;)V\n",
    "    astore_3\n",
    "CopyElement:\n",
    "    aload_0\n",
    "    aload_3\n",
    "    invokevirtual List/addElement(Ljava/lang/Object;)V\n",
    "    iinc 2 1\n",
    "    goto CopyLoop\n",
    "CopyDone:\n",
    "    return\n",
    ".end method\n",
    "\n",
    ".method public getElement(I)Ljava/lang/Object;\n",
    ".limit stack 2\n",
    ".limit locals 2\n",
    "    aload_0\n",
    "    getfield List/elements Ljava/util/ArrayList;\n",
    "    iload_1\n",
    "    invokevirtual java/util/ArrayList/get(I)Ljava/lang/Object;\n",
    "    areturn\n",
    ".end method\n",
    "\n",
    ".method public setElement(ILjava/lang/Object;)V\n",
    ".limit stack 3\n",
    ".limit locals 3\n",
    "    aload_0\n",
    "    getfield List/elements Ljava/util/ArrayList;\n",
    "    iload_1\n",
    "    aload_2\n",
    "    invokevirtual java/util/ArrayList/set(ILjava/lang/Object;)Ljava/lang/Object;\n",
    "    pop\n",
    "    return\n",
    ".end method\n",
    "\n",
    ".method public addElement(Ljava/lang/Object;)V\n",
    ".limit stack 2\n",
    ".limit locals 2\n",
    "    aload_0\n",
    "    getfield List/elements Ljava/util/ArrayList;\n",
    "    aload_1\n",
    "    invokevirtual java/util/ArrayList/add(Ljava/lang/Object;)Z\n",
    "    pop\n",
    "    return\n",
    ".end method\n",
    "\n",
    ".method public getSize()I\n",
    ".limit stack 1\n",
    ".limit locals 1\n",
    "    aload_0\n",
    "    getfield List/elements Ljava/util/ArrayList;\n",
    "    invokevirtual java/util/ArrayList/size()I\n",
    "    ireturn\n",
    ".end method\n"]

/-- Function pointers: a receiver and the name of one of its methods. -/
def fptrSupport : SupportClass where
  name := fptrClass
  source := String.join [
    ".class public Fptr\n",
    ".super java/lang/Object\n",
    "\n",
    ".field private instance Ljava/lang/Object;\n",
    ".field private methodName Ljava/lang/String;\n",
    "\n",
    ".method public <init>(Ljava/lang/Object;Ljava/lang/String;)V\n",
    ".limit stack 2\n",
    ".limit locals 3\n",
    "    aload_0\n",
    "    invokespecial java/lang/Object/<init>()V\n",
    "    aload_0\n",
    "    aload_1\n",
    "    putfield Fptr/instance Ljava/lang/Object;\n",
    "    aload_0\n",
    "    aload_2\n",
    "    putfield Fptr/methodName Ljava/lang/String;\n",
    "    return\n",
    ".end method\n",
    "\n",
    "; looks the target method up by name and arity among the methods the\n",
    "; captured receiver's class declares itself, then calls it\n",
    "; with the boxed arguments, void targets yield null\n",
    ".method public invoke(Ljava/util/ArrayList;)Ljava/lang/Object;\n",
    ".limit stack 4\n",
    ".limit locals 5\n",
    "    aload_0\n",
    "    getfield Fptr/instance Ljava/lang/Object;\n",
    "    invokevirtual java/lang/Object/getClass()Ljava/lang/Class;\n",
    "    invokevirtual java/lang/Class/getDeclaredMethods()[Ljava/lang/reflect/Method;\n",
    "    astore_2\n",
    "    iconst_0\n",
    "    istore_3\n",
    "SearchLoop:\n",
    "    iload_3\n",
    "    aload_2\n",
    "    arraylength\n",
    "    if_icmpge NotFound\n",
    "    aload_2\n",
    "    iload_3\n",
    "    aaload\n",
    "    astore 4\n",
    "    aload 4\n",
    "    invokevirtual java/lang/reflect/Method/getName()Ljava/lang/String;\n",
    "    aload_0\n",
    "    getfield Fptr/methodName Ljava/lang/String;\n",
    "    invokevirtual java/lang/String/equals(Ljava/lang/Object;)Z\n",
    "    ifeq NextMethod\n",
    "    aload 4\n",
    "    invokevirtual java/lang/reflect/Method/getParameterCount()I\n",
    "    aload_1\n",
    "    invokevirtual java/util/ArrayList/size()I\n",
    "    if_icmpne NextMethod\n",
    "    aload 4\n",
    "    aload_0\n",
    "    getfield Fptr/instance Ljava/lang/Object;\n",
    "    aload_1\n",
    "    invokevirtual java/util/ArrayList/toArray()[Ljava/lang/Object;\n",
    "    invokevirtual java/lang/reflect/Method/invoke(Ljava/lang/Object;[Ljava/lang/Object;)Ljava/lang/Object;\n",
    "    areturn\n",
    "NextMethod:\n",
    "    iinc 3 1\n",
    "    goto SearchLoop\n",
    "NotFound:\n",
    "    new java/lang/RuntimeException\n",
    "    dup\n",
    "    aload_0\n",
    "    getfield Fptr/methodName Ljava/lang/String;\n",
    "    invokespecial java/lang/RuntimeException/<init>(Ljava/lang/String;)V\n",
    "    athrow\n",
    ".end method\n"]

/-- All support classes, in the order in which they are installed. -/
def supportClasses : List SupportClass := [listSupport, fptrSupport]

end JasminGen
